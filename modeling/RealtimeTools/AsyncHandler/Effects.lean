import RealtimeTools.AsyncHandler.Model

/-!
# What one step of a client does

`ClientEffect` says once what a step of a client can do to the members and the history, together with
the guard it ran under; `ClientStep` and `WorkerStep` are what the threads may rely on about each
other.  The assertions here are about `async_mtx_` and what its owner knows.
-/

open Interleaving

namespace AsyncFunctionHandler

variable {κ T E : Type} {s s' : State κ T E} {k : κ}

def Owns (t : Thread κ) (s : State κ T E) : Prop := s.asyncMtx = some t

/-! ## Assertions at the program points -/

/-- The first half of the predicate the worker waits for is false. -/
def Resting (site : Loop) (s : State κ T E) : Prop :=
  match site with
  | .synchronized => s.triggerInProgress = false
  | .detached => s.pauseThread = true

def WaitAt (site : Loop) (s : State κ T E) : WaitPc → Prop
  | .lock | .blocked => True
  | .loadFirst => Owns .worker s
  | .loadStop | .block => Owns .worker s ∧ Resting site s

/-- Inside a synchronized cycle the trigger stays set. -/
def Cycling (site : Loop) (s : State κ T E) : Prop :=
  site = .synchronized → s.triggerInProgress = true

def LoopAt (site : Loop) (s : State κ T E) : LoopPc T E → Prop
  | .head | .notifyAll => True
  | .wait pc => WaitAt site s pc
  | .testStop => Owns .worker s ∧ (s.stopAsyncCallback = false → Cycling site s)
  | .measure | .schedule | .sleepUntil => Owns .worker s ∧ site = .detached
  | .invoke | .inCallback | .storeReturn _ | .storeException _ | .clear true =>
      Owns .worker s ∧ Cycling site s
  | .clear false => Owns .worker s
  | .unlock => Owns .worker s ∧ s.triggerInProgress = false

def PrologueAt (s : State κ T E) : ProloguePc → Prop
  | .wait pc => WaitAt .detached s pc
  | .unlock => Owns .worker s
  | _ => True

def WorkerPcAt (s : State κ T E) : WorkerPc T E → Prop
  | .start | .finished => True
  | .prologue pc => PrologueAt s pc
  | .loop site pc => LoopAt site s pc

def TriggerAt (k : κ) (s : State κ T E) : TriggerPc T → Prop
  | .storeResume | .storeReturn | .storePrevious | .unlockResume | .loadTrigger | .unlock
  | .release _ _ | .unwind => Owns (.client k) s
  | .predicate | .storeTrigger => Owns (.client k) s ∧ s.triggerInProgress = false
  | .storeTimes => Owns (.client k) s ∧ s.triggerInProgress = true
  | .loadReturn _ ownsLock => ownsLock = true → Owns (.client k) s
  | _ => True

def WaitCycleAt (k : κ) (s : State κ T E) : WaitCyclePc → Prop
  | .testRunning | .lock | .blocked => True
  | .loadTrigger => Owns (.client k) s
  | .block => Owns (.client k) s ∧ s.triggerInProgress = true
  | .unlock => Owns (.client k) s ∧ s.triggerInProgress = false

def PauseAt (k : κ) (s : State κ T E) : PausePc → Prop
  | .unlock => Owns (.client k) s
  | _ => True

def ResetAt (k : κ) (s : State κ T E) : ResetPc → Prop
  | .lock => True
  | _ => Owns (.client k) s

def StopAt (k : κ) (s : State κ T E) : StopPc → Prop
  | .unlock => Owns (.client k) s
  | _ => True

def ClientPcAt (k : κ) (s : State κ T E) : ClientPc T → Prop
  | .idle | .start _ | .init _ => True
  | .trigger _ _ pc => TriggerAt k s pc
  | .wait _ pc => WaitCycleAt k s pc
  | .pause pc => PauseAt k s pc
  | .reset _ pc => ResetAt k s pc
  | .stop pc => StopAt k s pc

def At : Thread κ → State κ T E → Prop
  | .worker, s => WorkerPcAt s s.worker ∧ (s.worker ≠ .finished → s.joinable = true)
  | .client k, s => ClientPcAt k s (s.client k)

theorem WaitAt.frame {site : Loop} {pc : WaitPc} (h : WaitAt site s pc)
    (howns : Owns .worker s → Owns .worker s')
    (hrest : Owns .worker s → Resting site s → Resting site s') : WaitAt site s' pc := by
  cases pc with
  | lock | blocked => trivial
  | loadFirst => exact howns h
  | loadStop | block => exact ⟨howns h.1, hrest h.1 h.2⟩

/-- A client's assertion is not disturbed by a step that keeps its mutex, and the trigger with it. -/
theorem ClientPcAt.frame {pc : ClientPc T} (h : ClientPcAt k s pc)
    (howns : Owns (.client k) s → Owns (.client k) s')
    (htrigger : Owns (.client k) s → s'.triggerInProgress = s.triggerInProgress) :
    ClientPcAt k s' pc := by
  cases pc with
  | idle | start pc | init call => trivial
  | trigger time period pc =>
    cases pc with
    | predicate | storeTrigger | storeTimes => exact ⟨howns h.1, (htrigger h.1).trans h.2⟩
    | loadReturn status ownsLock => exact fun hlock => howns (h hlock)
    | _ => first | trivial | exact howns h
  | wait pausing pc =>
    cases pc with
    | block | unlock => exact ⟨howns h.1, (htrigger h.1).trans h.2⟩
    | _ => first | trivial | exact howns h
  | pause pc => cases pc <;> first | trivial | exact howns h
  | reset starting pc => cases pc <;> first | trivial | exact howns h
  | stop pc => cases pc <;> first | trivial | exact howns h

/-! ## Effects of a client step -/

theorem init_ok {callback : Bool} {priority : Int32} {m m' : Members κ T E}
    (h : init callback priority m = .ok m') :
    callback = true ∧ m.joinable = false ∧
      m' = { m with asyncFunction := true, threadPriority := priority } := by
  unfold init at h
  split at h
  · cases h
  · rename_i hcallback
    split at h
    · cases h
    · rename_i hj
      exact ⟨by simpa using hcallback, by simpa using hj, (Except.ok.inj h).symm⟩

theorem initPredicate_ok {callback predicate : Bool} {priority : Int32} {m m' : Members κ T E}
    (h : initPredicate callback predicate priority m = .ok m') :
    callback = true ∧ predicate = true ∧ m.joinable = false ∧
      m' = { m with asyncFunction := true, threadPriority := priority, triggerPredicate := true } := by
  unfold initPredicate at h
  split at h
  · cases h
  · rename_i hpredicate
    cases hi : init callback priority m with
    | error what => simp [hi, bind, Except.bind] at h
    | ok m₁ =>
      obtain ⟨hcallback, hj, rfl⟩ := init_ok hi
      simp [hi, bind, Except.bind, pure, Except.pure] at h
      exact ⟨hcallback, by simpa using hpredicate, hj, h.symm⟩

theorem initParams_ok {callback : Bool} {params : AsyncFunctionHandlerParams}
    {m m' : Members κ T E} (h : initParams callback params m = .ok m') :
    (∀ what, params.validate ≠ .throws what) ∧ callback = true ∧ params.triggerPredicate = true ∧
      m.joinable = false ∧ m' = { m with
        asyncFunction := true
        threadPriority := params.threadPriority
        triggerPredicate := true
        params := params
        pauseThread := params.waitUntilInitialTrigger } := by
  unfold initParams at h
  split at h
  · cases h
  · rename_i hvalidate
    cases hi : initPredicate callback params.triggerPredicate params.threadPriority m with
    | error what => simp [hi, bind, Except.bind] at h
    | ok m₁ =>
      obtain ⟨hcallback, hpredicate, hj, rfl⟩ := initPredicate_ok hi
      simp [hi, bind, Except.bind, pure, Except.pure] at h
      exact ⟨hvalidate, hcallback, hpredicate, hj, h.symm⟩

/-- A call of `init` that does not throw finds no thread running, and changes only what a handler is
configured with. -/
theorem InitCall.apply_ok {call : InitCall} {m m' : Members κ T E} (h : call.apply m = .ok m') :
    m.joinable = false ∧ ∃ priority predicate params pause,
      m' = { m with
        asyncFunction := true
        threadPriority := priority
        triggerPredicate := predicate
        params := params
        pauseThread := pause } := by
  cases call with
  | callback f priority =>
    obtain ⟨_, hj, rfl⟩ := init_ok h
    exact ⟨hj, _, _, _, _, rfl⟩
  | predicate f p priority =>
    obtain ⟨_, _, hj, rfl⟩ := initPredicate_ok h
    exact ⟨hj, _, _, _, _, rfl⟩
  | params f p =>
    obtain ⟨_, _, _, hj, rfl⟩ := initParams_ok h
    exact ⟨hj, _, _, _, _, rfl⟩

/-- The events a call adds to the history besides its stores. -/
def Event.OfCall (k : κ) : Event κ T E → Prop
  | .called j _ | .returned j _ | .predicate j _ => j = k
  | _ => False

/-- Nothing is added to the history but an event of a call of `k`. -/
def CallHistory (k : κ) (s s' : State κ T E) : Prop :=
  s'.history = s.history ∨ ∃ e : Event κ T E, e.OfCall k ∧ s'.history = s.history ++ [e]

section Steps

variable [DecidableEq κ] [Inhabited T]

/-- What a step of client `k` does to the members, and what it adds to the history. -/
inductive ClientEffect (k : κ) (s s' : State κ T E) : Prop
  | quiet (hm : s'.toMembers = s.toMembers) (hh : CallHistory k s s')
  | lock (hfree : s.asyncMtx = none)
      (hm : s'.toMembers = { s.toMembers with asyncMtx := some (.client k) })
      (hh : s'.history = s.history)
  | unlock (hown : Owns (.client k) s) (hm : s'.toMembers = { s.toMembers with asyncMtx := none })
      (hh : CallHistory k s s')
  | storeTrigger (time : Time) (period : Duration) (hown : Owns (.client k) s)
      (hfree : s.triggerInProgress = false) (hpc : s.client k = .trigger time period .storeTrigger)
      (hpc' : s'.client k = .trigger time period .storeTimes)
      (hm : s'.toMembers = { s.toMembers with triggerInProgress := true })
      (hh : s'.history = s.history ++ [.accepted k time period])
  | storeTimes (time : Time) (period : Duration) (hown : Owns (.client k) s)
      (hpc : s.client k = .trigger time period .storeTimes)
      (hm : s'.toMembers =
        { s.toMembers with currentCallbackTime := time, currentCallbackPeriod := period })
      (hh : s'.history = s.history)
  | storeResume (hown : Owns (.client k) s)
      (hpc' : ∃ time period, s'.client k = .trigger time period .storeReturn)
      (hm : s'.toMembers = { s.toMembers with pauseThread := false })
      (hh : s'.history = s.history ++ [.resumed k])
  | storePrevious (now : Time) (period : Duration) (hown : Owns (.client k) s)
      (hm : s'.toMembers = { s.toMembers with previousTime := now - period })
      (hh : s'.history = s.history ++ [.resumeTime k now])
  | storeReturn (hown : Owns (.client k) s)
      (hm : s'.toMembers = { s.toMembers with asyncCallbackReturn := default })
      (hh : s'.history = s.history)
  | storePause (hm : s'.toMembers = { s.toMembers with pauseThread := true })
      (hh : s'.history = s.history ++ [.paused k])
  | storeStop (hpc' : s'.client k = .stop .lock)
      (hm : s'.toMembers = { s.toMembers with stopAsyncCallback := true })
      (hh : s'.history = s.history)
  | resetStop (hown : Owns (.client k) s)
      (hm : s'.toMembers = { s.toMembers with stopAsyncCallback := false })
      (hh : s'.history = s.history)
  | resetTrigger (starting : Bool) (hown : Owns (.client k) s)
      (hpc : s.client k = .reset starting .storeTrigger)
      (hm : s'.toMembers = { s.toMembers with triggerInProgress := false })
      (hh : s'.history = s.history)
  | resetTimes (hown : Owns (.client k) s) (hpc : ∃ starting, s.client k = .reset starting .storeTimes)
      (hm : s'.toMembers =
        { s.toMembers with currentCallbackTime := 0, currentCallbackPeriod := 0 })
      (hh : s'.history = s.history)
  | resetException (hown : Owns (.client k) s)
      (hm : s'.toMembers = { s.toMembers with asyncExceptionPtr := none })
      (hh : s'.history = s.history ++ [.reset k])
  | notify (woken : Thread κ) (condition : CondVar (Thread κ))
      (hn : s.asyncCallbackCondition.notifyOne woken = some condition)
      (hm : s'.toMembers = { s.toMembers with asyncCallbackCondition := condition })
      (hh : s'.history = s.history)
  | waitCycle (hown : Owns (.client k) s) (hbusy : s.triggerInProgress = true)
      (hm : s'.toMembers = { s.toMembers with
        asyncMtx := none, cycleEndCondition := s.cycleEndCondition.wait (.client k) })
      (hh : s'.history = s.history)
  | wakeCycle
      (hm : s'.toMembers =
        { s.toMembers with cycleEndCondition := s.cycleEndCondition.wake (.client k) })
      (hh : s'.history = s.history)
  | join (hfinished : s.worker = .finished)
      (hm : s'.toMembers = { s.toMembers with joinable := false }) (hh : CallHistory k s s')
  | spawn (hm : s'.toMembers = { s.toMembers with joinable := true }) (hh : CallHistory k s s')
  | init (call : InitCall) (hpc : s.client k = .init call)
      (ha : call.apply s.toMembers = .ok s'.toMembers) (hh : CallHistory k s s')

/-- The next step is the store that accepts a trigger. -/
def ClientPc.accepting : ClientPc T → Bool
  | .trigger _ _ .storeTrigger => true
  | _ => false

/-- A step of client `k`. -/
structure ClientStep (k : κ) (s s' : State κ T E) : Prop where
  client : ∃ pc, s'.client = Function.update s.client k pc
  worker : s'.worker = s.worker ∨
    (s.client k = .start .spawn ∧ s'.worker = .start ∧ s'.joinable = true)
  effect : ClientEffect k s s'

/-- A step of the worker, as far as the clients rely on it. -/
structure WorkerStep (s s' : State κ T E) : Prop where
  client : s'.client = s.client
  params : s'.params = s.params
  mutex : MutexStep .worker s.asyncMtx s'.asyncMtx
  trigger : s'.triggerInProgress = s.triggerInProgress ∨
    (Owns .worker s ∧ s'.triggerInProgress = false)

def Guarantee : Thread κ → State κ T E → State κ T E → Prop
  | .worker, s, s' => WorkerStep s s'
  | .client k, s, s' => ClientStep k s s'

theorem ClientStep.others (h : ClientStep k s s') {j : κ} (hj : j ≠ k) :
    s'.client j = s.client j := by
  obtain ⟨pc, hpc⟩ := h.client
  rw [hpc, Function.update_of_ne hj]

/-! ## What the others rely on -/

namespace ClientEffect

theorem mutex (h : ClientEffect k s s') : MutexStep (.client k) s.asyncMtx s'.asyncMtx := by
  cases h with
  | quiet hm hh => rw [hm]; exact .keep _
  | lock hfree hm hh => rw [hm, hfree]; exact .acquire
  | unlock hown hm hh =>
    have hmutex : s.asyncMtx = some (.client k) := hown
    rw [hm, hmutex]
    exact .release
  | waitCycle hown hbusy hm hh =>
    have hmutex : s.asyncMtx = some (.client k) := hown
    rw [hm, hmutex]
    exact .release
  | init call hpc ha hh =>
    obtain ⟨_, priority, predicate, params, pause, hm⟩ := InitCall.apply_ok ha
    rw [hm]
    exact .keep _
  | _ =>
    rename_i hm _
    rw [hm]
    exact .keep _

/-- While the worker owns the mutex, a client can only set `pause_thread_` and
`stop_async_callback_`, of the members the worker's assertions mention. -/
theorem worker_owns (h : ClientEffect k s s') (hown : Owns .worker s) (hj : s.joinable = true) :
    s'.triggerInProgress = s.triggerInProgress ∧ (s.pauseThread = true → s'.pauseThread = true) ∧
      (s'.stopAsyncCallback = false → s.stopAsyncCallback = false) := by
  have hnot : ¬ Owns (.client k) s := fun hk => nomatch hown.symm.trans hk
  cases h with
  | init call hpc ha hh =>
    have hidle := (InitCall.apply_ok ha).1
    exact absurd (hidle.symm.trans hj) Bool.false_ne_true
  | storePause hm hh =>
    rw [hm]
    exact ⟨rfl, fun _ => rfl, id⟩
  | storeStop hpc' hm hh =>
    rw [hm]
    exact ⟨rfl, id, fun hs => nomatch hs⟩
  | quiet hm hh | lock _ hm hh | notify _ _ _ hm hh | wakeCycle hm hh | join _ hm hh | spawn hm hh =>
    rw [hm]
    exact ⟨rfl, id, id⟩
  | _ => exact absurd ‹Owns (.client k) s› hnot

/-- `trigger_in_progress_` changes only under the mutex. -/
theorem trigger (h : ClientEffect k s s') (hnot : ¬ Owns (.client k) s) :
    s'.triggerInProgress = s.triggerInProgress := by
  cases h with
  | init call hpc ha hh =>
    obtain ⟨_, priority, predicate, params, pause, hm⟩ := InitCall.apply_ok ha
    rw [hm]
  | storePause hm hh | storeStop _ hm hh | quiet hm hh | lock _ hm hh | notify _ _ _ hm hh
  | wakeCycle hm hh | join _ hm hh | spawn hm hh => rw [hm]
  | _ => exact absurd ‹Owns (.client k) s› hnot

theorem joinable (h : ClientEffect k s s') (hw : s.worker ≠ .finished) (hj : s.joinable = true) :
    s'.joinable = true := by
  cases h with
  | init call hpc ha hh =>
    obtain ⟨_, priority, predicate, params, pause, hm⟩ := InitCall.apply_ok ha
    rw [hm]
    exact hj
  | join hfinished hm hh => exact absurd hfinished hw
  | spawn hm hh => rw [hm]
  | _ =>
    rename_i hm _
    rw [hm]
    exact hj

theorem stopping (h : ClientEffect k s s') (hs : s'.stopAsyncCallback = true) :
    s.stopAsyncCallback = true ∨ s'.client k = .stop .lock := by
  cases h with
  | storeStop hpc' _ _ => exact .inr hpc'
  | resetStop _ hm _ =>
    rw [hm] at hs
    cases hs
  | init call _ ha _ =>
    obtain ⟨_, priority, predicate, params, pause, hm⟩ := InitCall.apply_ok ha
    rw [hm] at hs
    exact .inl hs
  | _ =>
    rename_i hm _
    rw [hm] at hs
    exact .inl hs

/-- Only an accepted trigger sets `trigger_in_progress_`. -/
theorem not_accepted (h : ClientEffect k s s') (hno : ∀ call, s.client k ≠ .init call)
    (hfree : s.triggerInProgress = false) (hnot : (s.client k).accepting = false) :
    s'.triggerInProgress = false := by
  cases h with
  | init call hpc _ _ => exact absurd hpc (hno call)
  | storeTrigger time period _ _ hpc _ _ _ =>
    rw [hpc] at hnot
    cases hnot
  | resetTrigger _ _ _ hm _ => rw [hm]
  | _ =>
    rename_i hm _
    rw [hm]
    exact hfree

end ClientEffect

/-- The worker's assertion is not disturbed by a client. -/
theorem workerAt_frame (h : At .worker s) (hs : ClientStep k s s') : At .worker s' := by
  -- A client moves the worker only by starting it.
  rcases hs.worker with hw | ⟨_, hw, hj⟩
  · obtain ⟨hpc, hj⟩ := h
    have howns : Owns .worker s → Owns .worker s' := hs.effect.mutex.owner_kept (by simp)
    refine ⟨?_, fun hne => hs.effect.joinable (hw ▸ hne) (hj (hw ▸ hne))⟩
    rw [hw]
    cases hpc' : s.worker with
    | start | finished => trivial
    | prologue pc =>
      rw [hpc'] at hpc hj
      have hkeep := fun hown => hs.effect.worker_owns hown (hj (by simp))
      cases pc with
      | wait pc => exact WaitAt.frame hpc howns fun hown hr => (hkeep hown).2.1 hr
      | unlock => exact howns hpc
      | _ => trivial
    | loop site pc =>
      rw [hpc'] at hpc hj
      have hkeep := fun hown => hs.effect.worker_owns hown (hj (by simp))
      have hcycle : Owns .worker s → Cycling site s → Cycling site s' :=
        fun hown hc hsite => (hkeep hown).1.trans (hc hsite)
      have hrest : Owns .worker s → Resting site s → Resting site s' := by
        intro hown hr
        cases site with
        | synchronized => exact (hkeep hown).1.trans hr
        | detached => exact (hkeep hown).2.1 hr
      cases pc with
      | head | notifyAll => trivial
      | wait pc => exact WaitAt.frame hpc howns hrest
      | testStop =>
        exact ⟨howns hpc.1, fun hstop => hcycle hpc.1 (hpc.2 ((hkeep hpc.1).2.2 hstop))⟩
      | measure | schedule | sleepUntil => exact ⟨howns hpc.1, hpc.2⟩
      | clear ran =>
        cases ran with
        | true => exact ⟨howns hpc.1, hcycle hpc.1 hpc.2⟩
        | false => exact howns hpc
      | unlock => exact ⟨howns hpc.1, (hkeep hpc.1).1.trans hpc.2⟩
      | _ => exact ⟨howns hpc.1, hcycle hpc.1 hpc.2⟩
  · refine ⟨?_, fun _ => hj⟩
    rw [hw]
    trivial

omit [DecidableEq κ] [Inhabited T] in
theorem clientAt_frame_worker (h : At (.client k) s) (hs : WorkerStep s s') :
    At (.client k) s' := by
  have h : ClientPcAt k s (s.client k) := h
  show ClientPcAt k s' (s'.client k)
  rw [hs.client]
  apply h.frame (hs.mutex.owner_kept (by simp))
  -- The worker clears the flag under the mutex, so not while a client owns it.
  intro hown
  rcases hs.trigger with ht | ⟨hworker, _⟩
  · exact ht
  · cases hworker.symm.trans hown

theorem clientAt_frame_client {j : κ} (h : At (.client k) s) (hs : ClientStep j s s')
    (hkj : k ≠ j) : At (.client k) s' := by
  have h : ClientPcAt k s (s.client k) := h
  show ClientPcAt k s' (s'.client k)
  rw [hs.others hkj]
  have hne : Thread.client k ≠ Thread.client j := by simpa using hkj
  apply h.frame (hs.effect.mutex.owner_kept hne)
  intro hown
  exact hs.effect.trigger fun hj => hne (Option.some.inj (hown.symm.trans hj))

end Steps

end AsyncFunctionHandler
