import RealtimeTools.AsyncHandler.TriggerPaths
import RealtimeTools.AsyncHandler.Triggers
import RealtimeTools.Interleaving.CriticalSection

/-!
# Who waits for whom

Nobody keeps `async_mtx_` without moving on, so whoever waits for it waits for a thread that can move.
The realtime side does not even wait: under `SYNCHRONIZED` a trigger tries the mutex once, and is done
after a few steps of its own whatever the worker and the other clients do.  A detached worker invokes the
callback and sleeps inside its critical section; both are single steps here.
-/

open Interleaving

namespace AsyncFunctionHandler

variable {κ T E : Type} {s s' : State κ T E} {k : κ} {o : Oracle κ T E}

/-! ## Steps that are left -/

/-- The steps of the worker until it gives the mutex back. -/
@[simp] def WaitPc.left : WaitPc → ℕ
  | .loadFirst => 11
  | .loadStop => 10
  | .block => 1
  | .lock | .blocked => 0

@[simp] def LoopPc.left : LoopPc T E → ℕ
  | .wait pc => pc.left
  | .testStop => 9
  | .measure => 8
  | .invoke => 7
  | .inCallback => 6
  | .storeReturn _ | .storeException _ => 5
  | .schedule => 4
  | .sleepUntil => 3
  | .clear _ => 2
  | .unlock => 1
  | .head | .notifyAll => 0

@[simp] def ProloguePc.left : ProloguePc → ℕ
  | .wait pc => pc.left
  | .unlock => 1
  | _ => 0

def WorkerPc.left : WorkerPc T E → ℕ
  | .prologue pc => pc.left
  | .loop _ pc => pc.left
  | .start | .finished => 0

/-- The steps of a client until it gives the mutex back. -/
@[simp] def TriggerPc.left : TriggerPc T → ℕ
  | .loadTrigger => 5
  | .storeResume | .predicate => 4
  | .storeReturn | .storeTrigger => 3
  | .storePrevious | .storeTimes | .loadReturn _ true => 2
  | .unlockResume | .unlock | .release _ _ | .unwind => 1
  | _ => 0

@[simp] def WaitCyclePc.left : WaitCyclePc → ℕ
  | .loadTrigger => 2
  | .block | .unlock => 1
  | _ => 0

@[simp] def ResetPc.left : ResetPc → ℕ
  | .storeStop => 6
  | .storeTrigger => 5
  | .storeTimes => 4
  | .storeReturn => 3
  | .storeException => 2
  | .unlock => 1
  | .lock => 0

@[simp] def ClientPc.left : ClientPc T → ℕ
  | .trigger _ _ pc => pc.left
  | .wait _ pc => pc.left
  | .pause .unlock | .stop .unlock => 1
  | .reset _ pc => pc.left
  | _ => 0

/-- The steps of a client until its trigger returns, but for the wait for the mutex in a resume. -/
@[simp] def TriggerPc.leftOfTrigger : TriggerPc T → ℕ
  | .testInitialized => 12
  | .loadException => 11
  | .rethrow | .testPolicy => 10
  | .testRunning | .loadPause => 9
  | .tryLock | .lockResume => 8
  | .loadTrigger | .storeResume => 7
  | .predicate | .storeReturn => 6
  | .storeTrigger | .storePrevious => 5
  | .storeTimes | .unlockResume => 4
  | .unlock => 3
  | .notify | .notifyResume | .loadReturn _ true => 2
  | .loadReturn _ false | .release _ _ | .unwind => 1

@[simp] def ClientPc.leftOfTrigger : ClientPc T → ℕ
  | .trigger _ _ pc => pc.leftOfTrigger
  | _ => 0

def State.left (t : Thread κ) (s : State κ T E) : ℕ :=
  match t with
  | .worker => s.worker.left
  | .client k => (s.client k).left

/-- A step that is not the end of the program. -/
def Faultless [DecidableEq κ] [Inhabited T] (s : State κ T E) (t : Thread κ) (o : Oracle κ T E) :
    Prop :=
  ∀ s' ∈ step t o s, s'.fault = none

/-- Everything but `init` and `start_thread`, as long as nothing goes wrong. -/
def Running [DecidableEq κ] [Inhabited T] (s : State κ T E) (t : Thread κ) (o : Oracle κ T E) :
    Prop :=
  Calling running s t o ∧ Faultless s t o

instance [DecidableEq κ] [Inhabited T] (s : State κ T E) (t : Thread κ) (o : Oracle κ T E) :
    Decidable (Faultless s t o) :=
  inferInstanceAs (Decidable (∀ s' ∈ step t o s, s'.fault = none))

theorem WaitPc.left_le (pc : WaitPc) : pc.left ≤ 11 := by
  cases pc <;> simp

theorem LoopPc.left_le (pc : LoopPc T E) : pc.left ≤ 11 := by
  cases pc with
  | wait pc => exact pc.left_le
  | _ => simp

theorem WorkerPc.left_le (pc : WorkerPc T E) : pc.left ≤ 11 := by
  cases pc with
  | start | finished => exact Nat.zero_le _
  | prologue pc =>
    cases pc with
    | wait pc => exact pc.left_le
    | _ => simp [left]
  | loop site pc => exact pc.left_le

theorem ClientPc.left_le (pc : ClientPc T) : pc.left ≤ 11 := by
  unfold left
  split
  · unfold TriggerPc.left
    split <;> decide
  · unfold WaitCyclePc.left
    split <;> decide
  · decide
  · decide
  · unfold ResetPc.left
    split <;> decide
  · decide

theorem State.left_le (t : Thread κ) (s : State κ T E) : s.left t ≤ 11 := by
  cases t with
  | worker => exact s.worker.left_le
  | client k => exact (s.client k).left_le

section Steps

variable [DecidableEq κ]

/-! ## The worker -/

theorem waitAsync_bounded {site : Loop} {first : Bool} {at_ : WaitPc → WorkerPc T E}
    {exit : WorkerPc T E} {pc : WaitPc} (h : waitAsync s first at_ exit pc = some s')
    (hsite : ∀ pc, (at_ pc).left = pc.left) (hexit : 0 < exit.left ∧ exit.left < 10)
    (hat : WaitAt site s pc) :
    BoundedStep .worker pc.left s'.worker.left s.asyncMtx s'.asyncMtx := by
  cases pc with
  | lock =>
    obtain ⟨hfree, h⟩ := Option.ite_none_right_eq_some.mp h
    obtain rfl := Option.some.inj h
    rw [hfree, hsite]
    exact .enter rfl (by simp)
  | loadFirst =>
    obtain rfl := Option.some.inj h
    dsimp only
    split
    · exact .inside _ hexit.1 (hexit.2.trans (by decide))
    · rw [hsite]
      exact .inside _ (by decide) (by decide)
  | loadStop =>
    obtain rfl := Option.some.inj h
    dsimp only
    split
    · exact .inside _ hexit.1 hexit.2
    · rw [hsite]
      exact .inside _ (by decide) (by decide)
  | block =>
    obtain rfl := Option.some.inj h
    have hown : s.asyncMtx = some .worker := hat.1
    rw [hown, hsite]
    exact .leave (by simp) rfl
  | blocked =>
    obtain rfl := Option.some.inj h
    rw [hsite]
    exact .outside _ rfl rfl

/-- The shared part of the loops: `run` comes after the stop test, `next` after the callback. -/
theorem loopBody_bounded {site : Loop} {first : Bool} {run next pc : LoopPc T E}
    (h : loopBody site first run next s o pc = some s')
    (hrun : 0 < run.left ∧ run.left < 9) (hnext : 0 < next.left ∧ next.left < 5)
    (hat : LoopAt site s pc) :
    BoundedStep .worker pc.left s'.worker.left s.asyncMtx s'.asyncMtx := by
  cases pc with
  | head =>
    simp only [loopBody] at h
    split at h <;>
    · obtain rfl := Option.some.inj h
      exact .outside _ rfl rfl
  | wait pc =>
    have h : waitAsync s first (fun pc => .loop site (.wait pc)) (.loop site .testStop) pc =
        some s' := h
    exact waitAsync_bounded h (fun _ => rfl) (by simp [WorkerPc.left]) hat
  | testStop =>
    obtain rfl := Option.some.inj h
    dsimp only
    split
    · exact .inside _ (by simp [WorkerPc.left]) (by simp [WorkerPc.left])
    · exact .inside _ hrun.1 hrun.2
  | invoke =>
    obtain rfl := Option.some.inj h
    exact .inside _ (by simp [State.record, WorkerPc.left]) (by simp [State.record, WorkerPc.left])
  | inCallback =>
    simp only [loopBody] at h
    split at h <;>
    · obtain rfl := Option.some.inj h
      exact .inside _ (by simp [State.record, WorkerPc.left])
        (by simp [State.record, WorkerPc.left])
  | storeReturn value | storeException e =>
    obtain rfl := Option.some.inj h
    exact .inside _ hnext.1 hnext.2
  | clear ran =>
    obtain rfl := Option.some.inj h
    cases ran <;> exact .inside _ Nat.one_pos Nat.one_lt_two
  | unlock =>
    obtain rfl := Option.some.inj h
    have hown : s.asyncMtx = some .worker := hat.1
    rw [hown]
    exact .leave (by simp) rfl
  | notifyAll =>
    obtain rfl := Option.some.inj h
    exact .outside _ rfl rfl
  | measure | schedule | sleepUntil => cases h

theorem executeDetachedCallback_bounded {pc : LoopPc T E}
    (h : executeDetachedCallback s o pc = some s') (hf : s'.fault = none)
    (hat : LoopAt .detached s pc) :
    BoundedStep .worker pc.left s'.worker.left s.asyncMtx s'.asyncMtx := by
  have hbody : ∀ {pc : LoopPc T E}, LoopAt .detached s pc →
      loopBody .detached (!s.pauseThread) .measure .schedule s o pc = some s' →
      BoundedStep .worker pc.left s'.worker.left s.asyncMtx s'.asyncMtx :=
    fun hat h => loopBody_bounded h (by simp) (by simp) hat
  cases pc with
  | measure | sleepUntil =>
    obtain rfl := Option.some.inj h
    exact .inside _ (by simp [WorkerPc.left]) (by simp [WorkerPc.left])
  | schedule =>
    simp only [executeDetachedCallback] at h
    split at h <;> obtain rfl := Option.some.inj h
    · exact .inside _ (by simp [WorkerPc.left]) (by simp [WorkerPc.left])
    · cases hf
  | _ => exact hbody hat h

theorem detachedPrologue_bounded {pc : ProloguePc} (hw : s.worker = .prologue pc)
    (h : detachedPrologue s o pc = some s') (hat : PrologueAt s pc) :
    BoundedStep .worker pc.left s'.worker.left s.asyncMtx s'.asyncMtx := by
  cases pc with
  | testClock | testRate =>
    simp only [detachedPrologue] at h
    split at h <;> obtain rfl := Option.some.inj h
    all_goals first | exact .outside _ rfl rfl | exact .outside _ rfl (by simp [hw, WorkerPc.left])
  | loadPause =>
    obtain rfl := Option.some.inj h
    refine .outside _ rfl ?_
    dsimp only
    split <;> rfl
  | wait pc =>
    have h : waitAsync s (!s.pauseThread) (fun pc => .prologue (.wait pc)) (.prologue .unlock) pc =
        some s' := h
    exact waitAsync_bounded h (fun _ => rfl) (by simp [WorkerPc.left]) hat
  | unlock =>
    obtain rfl := Option.some.inj h
    have hown : s.asyncMtx = some .worker := hat
    rw [hown]
    exact .leave (by simp) rfl
  | readPrevious | sleepPeriod | readSteady =>
    obtain rfl := Option.some.inj h
    exact .outside _ rfl rfl

/-- The worker inside its critical sections. -/
theorem workerStep_bounded (h : workerStep s o = some s') (hf : s'.fault = none)
    (hat : WorkerPcAt s s.worker) :
    BoundedStep .worker s.worker.left s'.worker.left s.asyncMtx s'.asyncMtx := by
  unfold workerStep at h
  cases hw : s.worker with
  | start =>
    simp only [hw] at h
    split at h <;>
    · obtain rfl := Option.some.inj h
      exact .outside _ rfl rfl
  | prologue pc =>
    simp only [hw] at h hat
    exact detachedPrologue_bounded hw h hat
  | loop site pc =>
    cases site <;> simp only [hw] at h hat
    · exact loopBody_bounded h (by simp) (by simp) hat
    · exact executeDetachedCallback_bounded h hf hat
  | finished =>
    simp only [hw] at h
    cases h

/-! ## The clients -/

theorem lockThen_bounded {next : ClientPc T} {n : ℕ} (h : lockThen s k next = some s') (hn : n = 0)
    (hnext : 0 < next.left) :
    BoundedStep (.client k) n (s'.client k).left s.asyncMtx s'.asyncMtx := by
  obtain ⟨hfree, h⟩ := Option.ite_none_right_eq_some.mp h
  obtain rfl := Option.some.inj h
  rw [State.client_goto, hfree]
  exact .enter hn hnext

theorem notifyThen_bounded {next : ClientPc T} {n : ℕ} (h : notifyThen s k o next = some s')
    (hn : n = 0) (hnext : next.left = 0) :
    BoundedStep (.client k) n (s'.client k).left s.asyncMtx s'.asyncMtx := by
  obtain ⟨condition, _, rfl⟩ := Option.map_eq_some_iff.mp h
  rw [State.client_goto]
  exact .outside _ hn hnext

@[simp] theorem State.client_returnWith (s : State κ T E) (k : κ) (result : Result T E) :
    (s.returnWith k result).client k = .idle := s.client_goto k .idle

@[simp] theorem State.asyncMtx_returnWith (s : State κ T E) (k : κ) (result : Result T E) :
    (s.returnWith k result).asyncMtx = s.asyncMtx := rfl

@[simp] theorem State.asyncMtx_goto (s : State κ T E) (k : κ) (pc : ClientPc T) :
    (s.goto k pc).asyncMtx = s.asyncMtx := rfl

omit [DecidableEq κ] in
@[simp] theorem State.asyncMtx_record (s : State κ T E) (e : Event κ T E) :
    (s.record e).asyncMtx = s.asyncMtx := rfl

variable [Inhabited T]

theorem triggerAsyncCallback_bounded {time : Time} {period : Duration} {pc : TriggerPc T}
    (hpc : s.client k = .trigger time period pc)
    (h : triggerAsyncCallback s k o time period pc = some s') (hf : s'.fault = none)
    (hat : TriggerAt k s pc) :
    BoundedStep (.client k) pc.left (s'.client k).left s.asyncMtx s'.asyncMtx := by
  cases pc with
  | testInitialized | testRunning =>
    simp only [triggerAsyncCallback] at h
    split at h <;>
    · obtain rfl := Option.some.inj h
      exact .outside _ rfl (by simp)
  | loadException | testPolicy | loadPause =>
    obtain rfl := Option.some.inj h
    refine .outside _ rfl ?_
    rw [State.client_goto]
    split <;> rfl
  | rethrow =>
    simp only [triggerAsyncCallback] at h
    split at h <;> obtain rfl := Option.some.inj h
    · exact .outside _ rfl (by simp)
    · cases hf
  | lockResume => exact lockThen_bounded h rfl (by simp)
  | notifyResume | notify => exact notifyThen_bounded h rfl rfl
  | storeResume | storeReturn | storeTrigger | storeTimes =>
    obtain rfl := Option.some.inj h
    exact .inside _ (by simp) (by simp)
  | storePrevious =>
    simp only [triggerAsyncCallback] at h
    split at h
    · split at h <;> obtain rfl := Option.some.inj h
      · exact .inside _ (by simp) (by simp)
      · cases hf
    · obtain rfl := Option.some.inj h
      cases hf
  | tryLock =>
    rcases s.asyncMtx.tryLock_cases (.client k) o.spuriousFail with ⟨hfree, he⟩ | he <;>
      simp only [triggerAsyncCallback, he, Option.some.injEq] at h <;> subst h
    · rw [State.client_goto, hfree]
      exact .enter rfl (by simp)
    · rw [State.client_goto]
      exact .outside _ rfl rfl
  | loadTrigger =>
    obtain rfl := Option.some.inj h
    rw [State.client_goto]
    split <;> exact .inside _ (by simp) (by simp)
  | predicate =>
    simp only [triggerAsyncCallback] at h
    split at h <;> obtain rfl := Option.some.inj h
    · rw [State.client_record, State.client_goto]
      split <;> exact .inside _ (by simp) (by simp)
    · exact .inside _ (by simp) (by simp)
  | loadReturn status ownsLock =>
    cases ownsLock <;> obtain rfl := Option.some.inj h
    · exact .outside _ rfl (by simp)
    · exact .inside _ (by simp) (by simp)
  | unlockResume | unlock | release | unwind =>
    obtain rfl := Option.some.inj h
    have hown : s.asyncMtx = some (.client k) := hat
    rw [hown]
    exact .leave (by simp) (by simp)

omit [Inhabited T] in
theorem waitForTriggerCycleToFinish_bounded {pausing : Bool} {pc : WaitCyclePc}
    (h : waitForTriggerCycleToFinish s k pausing pc = some s') (hat : WaitCycleAt k s pc) :
    BoundedStep (.client k) pc.left (s'.client k).left s.asyncMtx s'.asyncMtx := by
  cases pc with
  | testRunning =>
    simp only [waitForTriggerCycleToFinish] at h
    split at h <;>
    · obtain rfl := Option.some.inj h
      exact .outside _ rfl (by simp)
  | lock => exact lockThen_bounded h rfl (by simp)
  | loadTrigger =>
    obtain rfl := Option.some.inj h
    rw [State.client_goto]
    split <;> exact .inside _ (by simp) (by simp)
  | blocked =>
    obtain rfl := Option.some.inj h
    exact .outside _ rfl (by simp)
  | block | unlock =>
    obtain rfl := Option.some.inj h
    have hown : s.asyncMtx = some (.client k) := hat.1
    rw [hown]
    exact .leave (by simp) (by simp)

omit [Inhabited T] in
theorem pauseExecution_bounded {pc : PausePc} (h : pauseExecution s k pc = some s')
    (hat : PauseAt k s pc) :
    BoundedStep (.client k) (ClientPc.pause pc : ClientPc T).left (s'.client k).left s.asyncMtx
      s'.asyncMtx := by
  cases pc with
  | lock => exact lockThen_bounded h rfl (by simp)
  | unlock =>
    obtain rfl := Option.some.inj h
    have hown : s.asyncMtx = some (.client k) := hat
    rw [hown]
    exact .leave (by simp) (by simp)
  | testPolicy | testRunning =>
    obtain rfl := Option.some.inj h
    refine .outside _ rfl ?_
    rw [State.client_goto]
    split <;> rfl
  | storePauseSynchronized | storePause | loadPause =>
    obtain rfl := Option.some.inj h
    exact .outside _ rfl (by simp)

theorem resetVariables_bounded {starting : Bool} {pc : ResetPc}
    (h : resetVariables s k starting pc = some s') (hat : ResetAt k s pc) :
    BoundedStep (.client k) pc.left (s'.client k).left s.asyncMtx s'.asyncMtx := by
  cases pc with
  | lock => exact lockThen_bounded h rfl (by simp)
  | unlock =>
    have hown : s.asyncMtx = some (.client k) := hat
    rw [hown]
    cases starting <;>
    · obtain rfl := Option.some.inj h
      exact .leave (by simp) (by simp)
  | storeStop | storeTrigger | storeTimes | storeReturn | storeException =>
    obtain rfl := Option.some.inj h
    exact .inside _ (by simp) (by simp)

omit [Inhabited T] in
theorem stopThread_bounded {pc : StopPc} (h : stopThread s k o pc = some s')
    (hat : StopAt k s pc) :
    BoundedStep (.client k) (ClientPc.stop pc : ClientPc T).left (s'.client k).left s.asyncMtx
      s'.asyncMtx := by
  cases pc with
  | testRunning =>
    simp only [stopThread] at h
    split at h <;>
    · obtain rfl := Option.some.inj h
      exact .outside _ rfl (by simp)
  | storeStop =>
    obtain rfl := Option.some.inj h
    exact .outside _ rfl (by simp)
  | lock => exact lockThen_bounded h rfl (by simp)
  | unlock =>
    obtain rfl := Option.some.inj h
    have hown : s.asyncMtx = some (.client k) := hat
    rw [hown]
    exact .leave (by simp) (by simp)
  | notify => exact notifyThen_bounded h rfl rfl
  | join =>
    simp only [stopThread] at h
    split at h
    · obtain rfl := Option.some.inj h
      exact .outside _ rfl (by simp)
    · cases h

/-- A client inside its critical sections. -/
theorem clientStep_bounded (h : clientStep s k o = some s') (hf : s'.fault = none)
    (hno : NotSettingUp k s) (hat : ClientPcAt k s (s.client k)) :
    BoundedStep (.client k) (s.client k).left (s'.client k).left s.asyncMtx s'.asyncMtx := by
  unfold clientStep at h
  cases hpc : s.client k with
  | idle =>
    simp only [hpc] at h
    obtain rfl := Option.some.inj h
    refine .outside _ rfl ?_
    rw [State.client_record, State.client_goto]
    cases o.call <;> rfl
  | trigger time period pc =>
    simp only [hpc] at h hat
    exact triggerAsyncCallback_bounded hpc h hf hat
  | wait pausing pc =>
    simp only [hpc] at h hat
    exact waitForTriggerCycleToFinish_bounded h hat
  | pause pc =>
    simp only [hpc] at h hat
    exact pauseExecution_bounded h hat
  | reset starting pc =>
    simp only [hpc] at h hat
    exact resetVariables_bounded h hat
  | stop pc =>
    simp only [hpc] at h hat
    exact stopThread_bounded h hat
  | start pc =>
    cases hno .start (by rw [hpc]; rfl)
  | init call => exact absurd hpc (hno.not_init call)

/-! ## Who can move -/

/-- Where a thread may have to wait for `async_mtx_`. -/
def AtLock (t : Thread κ) (s : State κ T E) : Prop :=
  match t with
  | .worker => s.worker = .prologue (.wait .lock) ∨ ∃ site, s.worker = .loop site (.wait .lock)
  | .client k => (∃ time period, s.client k = .trigger time period .lockResume) ∨
      (∃ pausing, s.client k = .wait pausing .lock) ∨ s.client k = .pause .lock ∨
      (∃ starting, s.client k = .reset starting .lock) ∨ s.client k = .stop .lock

/-- `stop_thread` waits for the end of the worker. -/
def Joining (t : Thread κ) (s : State κ T E) : Prop :=
  s.worker ≠ .finished ∧ ∃ k, t = .client k ∧ s.client k = .stop .join

omit [DecidableEq κ] [Inhabited T] in
theorem left_of_atLock {t : Thread κ} (h : AtLock t s) : s.left t = 0 := by
  cases t with
  | worker => rcases h with h | ⟨site, h⟩ <;> simp [State.left, WorkerPc.left, h]
  | client k =>
    rcases h with ⟨time, period, h⟩ | ⟨pausing, h⟩ | h | ⟨starting, h⟩ | h <;> simp [State.left, h]

omit [Inhabited T] in
theorem waitAsync_enabled (s : State κ T E) (first : Bool) (at_ : WaitPc → WorkerPc T E)
    (exit : WorkerPc T E) {pc : WaitPc} (h : pc = .lock → s.asyncMtx = none) :
    ∃ s', waitAsync s first at_ exit pc = some s' := by
  cases pc with
  | lock => exact ⟨_, if_pos (h rfl)⟩
  | _ => exact ⟨_, rfl⟩

omit [Inhabited T] in
theorem loopBody_enabled {site : Loop} {pc : LoopPc T E} (first : Bool) (run next : LoopPc T E)
    (o : Oracle κ T E) (h : pc = .wait .lock → s.asyncMtx = none)
    (hnot : pc ≠ .measure ∧ pc ≠ .schedule ∧ pc ≠ .sleepUntil) :
    ∃ s', loopBody site first run next s o pc = some s' := by
  cases pc with
  | wait pc =>
    simp only [loopBody]
    exact waitAsync_enabled s _ _ _ fun hpc => h (congrArg _ hpc)
  | head | inCallback =>
    simp only [loopBody]
    split <;> exact ⟨_, rfl⟩
  | measure => exact absurd rfl hnot.1
  | schedule => exact absurd rfl hnot.2.1
  | sleepUntil => exact absurd rfl hnot.2.2
  | _ => exact ⟨_, rfl⟩

omit [Inhabited T] in
theorem executeDetachedCallback_enabled {pc : LoopPc T E} (o : Oracle κ T E)
    (h : pc = .wait .lock → s.asyncMtx = none) :
    ∃ s', executeDetachedCallback s o pc = some s' := by
  cases pc with
  | measure | sleepUntil => exact ⟨_, rfl⟩
  | schedule =>
    simp only [executeDetachedCallback]
    split <;> exact ⟨_, rfl⟩
  | _ => exact loopBody_enabled (!s.pauseThread) .measure .schedule o h (by simp)

omit [Inhabited T] in
/-- The worker waits for the mutex only, and at its end. -/
theorem workerStep_enabled (o : Oracle κ T E) (h : AtLock .worker s → s.asyncMtx = none)
    (hend : s.worker ≠ .finished) (hat : WorkerPcAt s s.worker) :
    ∃ s', workerStep s o = some s' := by
  unfold workerStep
  cases hw : s.worker with
  | start =>
    dsimp only
    split <;> exact ⟨_, rfl⟩
  | prologue pc =>
    cases pc with
    | wait pc =>
      simp only [detachedPrologue]
      exact waitAsync_enabled s _ _ _ fun hpc => h (.inl (hpc ▸ hw))
    | testClock | testRate =>
      simp only [detachedPrologue]
      split <;> exact ⟨_, rfl⟩
    | _ => exact ⟨_, rfl⟩
  | loop site pc =>
    have hlock : pc = .wait .lock → s.asyncMtx = none := fun hpc => h (.inr ⟨site, hpc ▸ hw⟩)
    rw [hw] at hat
    cases site with
    | synchronized =>
      refine loopBody_enabled _ _ _ o hlock ⟨?_, ?_, ?_⟩ <;>
      · rintro rfl
        cases hat.2
    | detached => exact executeDetachedCallback_enabled o hlock
  | finished => exact absurd hw hend

omit [Inhabited T] in
theorem lockThen_enabled (k : κ) (next : ClientPc T) (h : s.asyncMtx = none) :
    ∃ s', lockThen s k next = some s' := ⟨_, if_pos h⟩

omit [Inhabited T] in
/-- A notification may always be made. -/
theorem notifyThen_enabled (s : State κ T E) (k : κ) (o : Oracle κ T E) (next : ClientPc T) :
    ∃ woken s', notifyThen s k { o with woken := woken } next = some s' := by
  obtain ⟨woken, condition, hn⟩ := s.asyncCallbackCondition.exists_notifyOne .worker
  refine ⟨woken, ?_⟩
  simp only [notifyThen, hn]
  exact ⟨_, rfl⟩

theorem triggerAsyncCallback_enabled (s : State κ T E) (k : κ) (time : Time) (period : Duration)
    {pc : TriggerPc T} (o : Oracle κ T E) (h : pc = .lockResume → s.asyncMtx = none) :
    ∃ o s', triggerAsyncCallback s k o time period pc = some s' := by
  cases pc with
  | testInitialized | rethrow | testRunning | predicate =>
    refine ⟨o, ?_⟩
    simp only [triggerAsyncCallback]
    split <;> exact ⟨_, rfl⟩
  | storePrevious =>
    refine ⟨o, ?_⟩
    simp only [triggerAsyncCallback]
    split
    · split <;> exact ⟨_, rfl⟩
    · exact ⟨_, rfl⟩
  | lockResume => exact ⟨o, lockThen_enabled k _ (h rfl)⟩
  | notifyResume | notify =>
    obtain ⟨woken, hn⟩ := notifyThen_enabled s k o (.trigger time period (.loadReturn true false))
    exact ⟨_, hn⟩
  | loadReturn status ownsLock => cases ownsLock <;> exact ⟨o, _, rfl⟩
  | _ => exact ⟨o, _, rfl⟩

/-- A client waits for the mutex only, and for the end of the worker. -/
theorem clientStep_enabled (o : Oracle κ T E) (h : AtLock (.client k) s → s.asyncMtx = none)
    (hjoin : ¬ Joining (.client k) s) (hno : NotSettingUp k s) :
    ∃ o s', clientStep s k o = some s' := by
  unfold clientStep
  cases hpc : s.client k with
  | idle => exact ⟨o, _, rfl⟩
  | trigger time period pc =>
    refine triggerAsyncCallback_enabled s k time period o fun hlock => ?_
    exact h (.inl ⟨time, period, hlock ▸ hpc⟩)
  | wait pausing pc =>
    refine ⟨o, ?_⟩
    cases pc with
    | testRunning =>
      simp only [waitForTriggerCycleToFinish]
      split <;> exact ⟨_, rfl⟩
    | lock => exact lockThen_enabled k _ (h (.inr (.inl ⟨pausing, hpc⟩)))
    | _ => exact ⟨_, rfl⟩
  | pause pc =>
    refine ⟨o, ?_⟩
    cases pc with
    | lock => exact lockThen_enabled k _ (h (.inr (.inr (.inl hpc))))
    | _ => exact ⟨_, rfl⟩
  | reset starting pc =>
    refine ⟨o, ?_⟩
    cases pc with
    | lock => exact lockThen_enabled k _ (h (.inr (.inr (.inr (.inl ⟨starting, hpc⟩)))))
    | unlock => cases starting <;> exact ⟨_, rfl⟩
    | _ => exact ⟨_, rfl⟩
  | stop pc =>
    cases pc with
    | testRunning =>
      refine ⟨o, ?_⟩
      simp only [stopThread]
      split <;> exact ⟨_, rfl⟩
    | lock => exact ⟨o, lockThen_enabled k _ (h (.inr (.inr (.inr (.inr hpc)))))⟩
    | notify =>
      obtain ⟨woken, hn⟩ := notifyThen_enabled s k o (.stop .join)
      exact ⟨_, hn⟩
    | join =>
      have hfinished : s.worker = .finished := by
        by_contra hne
        exact hjoin ⟨hne, k, rfl, hpc⟩
      simp only [stopThread, hfinished]
      exact ⟨o, _, rfl⟩
    | storeStop | unlock => exact ⟨o, _, rfl⟩
  | start pc => cases hno .start (by rw [hpc]; rfl)
  | init call => exact absurd hpc (hno.not_init call)

/-! ## Runs -/

/-- What holds in every state of a run without a fault. -/
theorem running_started {policy : AsyncSchedulingPolicy}
    (hr : Reachable (startedHandler κ T E policy) Running s) :
    Started policy running s ∧ s.fault = none := by
  refine hr.invariant (I := fun s => Started policy running s ∧ s.fault = none) ?_ ?_
  · rintro s ⟨params, pauseThread, previousTime, hpolicy, rfl⟩
    have hr : Reachable (startedHandler κ T E policy) Running
        (started params pauseThread previousTime) := .start ⟨_, _, _, hpolicy, rfl⟩
    exact ⟨⟨started_at hr, ⟨hpolicy, trivial⟩, fun k call hcall => nomatch hcall⟩, rfl⟩
  · intro s t o s' hr ⟨hfacts, _⟩ hp hs
    exact ⟨(hfacts.step (fun _ _ _ hp => hp.1) (fun _ => setsUp_of_running) hr hp hs).1,
      hp.2 s' hs⟩

theorem running_step {policy : AsyncSchedulingPolicy} {t : Thread κ}
    (hr : Reachable (startedHandler κ T E policy) Running s) (hp : Running s t o)
    (hs : step t o s = some s') : RunningStep o s s' t :=
  ((running_started hr).1.step (fun _ _ _ hp => hp.1) (fun _ => setsUp_of_running) hr hp hs).2

theorem handler_sections (policy : AsyncSchedulingPolicy) :
    BoundedSections (startedHandler κ T E policy) Running (fun s => s.asyncMtx) State.left where
  start := by
    rintro s ⟨params, pauseThread, previousTime, _, rfl⟩
    refine ⟨rfl, fun t => ?_⟩
    cases t <;> rfl
  own := by
    intro s t o s' hr hp hs
    have hat := (running_started hr).1.at_ t
    have hmove := running_step hr hp hs
    cases hmove with
    | worker hclient heffect =>
      exact workerStep_bounded (workerStep_of_step hs) (hp.2 s' hs) hat.1
    | client k hstep hw hno hcs => exact clientStep_bounded hcs (hp.2 s' hs) hno hat
  others := by
    intro s t o s' u hr hp hs hut
    have hmove := running_step hr hp hs
    cases hmove with
    | worker hclient heffect =>
      cases u with
      | worker => exact absurd rfl hut
      | client j => exact congrArg ClientPc.left (congrFun hclient j)
    | client k hstep hw hno hcs =>
      cases u with
      | worker => exact congrArg WorkerPc.left hw
      | client j => exact congrArg ClientPc.left (hstep.others (by simpa using hut))

theorem step_enabled {policy : AsyncSchedulingPolicy} {t : Thread κ}
    (hr : Reachable (startedHandler κ T E policy) Running s) (hlock : AtLock t s → s.asyncMtx = none)
    (hjoin : ¬ Joining t s) (hend : t = .worker → s.worker ≠ .finished) :
    ∃ o s', step t o s = some s' := by
  obtain ⟨hfacts, hfault⟩ := running_started hr
  have hrunning : ¬ s.fault.isSome = true := by simp [hfault]
  cases t with
  | worker =>
    obtain ⟨s', hs⟩ := workerStep_enabled { callback := .ok default } hlock (hend rfl)
      (hfacts.at_ .worker).1
    exact ⟨_, s', (if_neg hrunning).trans hs⟩
  | client k =>
    obtain ⟨o, s', hs⟩ := clientStep_enabled { callback := .ok default } hlock hjoin
      fun call hcall => setsUp_of_running (hfacts.calls k call hcall)
    exact ⟨o, s', (if_neg hrunning).trans hs⟩

theorem enabled_of_left {policy : AsyncSchedulingPolicy} {t : Thread κ}
    (hr : Reachable (startedHandler κ T E policy) Running s) (hleft : 0 < s.left t) :
    ∃ o s', step t o s = some s' := by
  apply step_enabled hr
  · intro hlock
    exact absurd (left_of_atLock hlock) (Nat.ne_of_gt hleft)
  · rintro ⟨_, k, rfl, hpc⟩
    simp [State.left, hpc] at hleft
  · rintro rfl hend
    simp [State.left, WorkerPc.left, hend] at hleft

theorem blocked_cases {policy : AsyncSchedulingPolicy} {t : Thread κ}
    (hr : Reachable (startedHandler κ T E policy) Running s) (hblocked : ∀ o, step t o s = none) :
    (AtLock t s ∧ ∃ u, s.asyncMtx = some u ∧ u ≠ t) ∨ Joining t s ∨
      (t = .worker ∧ s.worker = .finished) := by
  by_contra hnot
  push Not at hnot
  obtain ⟨hlock, hjoin, hend⟩ := hnot
  have hfree : AtLock t s → s.asyncMtx = none := by
    intro hat
    by_contra hheld
    obtain ⟨u, hu⟩ := Option.ne_none_iff_exists'.mp hheld
    -- A thread that waits for the mutex is outside its critical section.
    obtain rfl := hlock hat u hu
    exact absurd (left_of_atLock hat)
      (Nat.ne_of_gt (((handler_sections policy).owner_iff hr u).mp hu))
  obtain ⟨o, s', hs⟩ := step_enabled hr hfree hjoin hend
  rw [hblocked o] at hs
  cases hs

/-- **Nobody is kept waiting.**  The owner of `async_mtx_` can always move, and gives it back after 11
of its own steps at the latest; a detached worker invokes the callback and sleeps in two of them.  A
thread that cannot move waits for the mutex of such an owner, or for the worker in `stop_thread`, or is
the worker after its end. -/
theorem async_mtx_given_back (policy : AsyncSchedulingPolicy) :
    (∀ t, WaitFree (startedHandler κ T E policy) Running t (fun s => s.asyncMtx = some t) 11) ∧
      ∀ s t, Reachable (startedHandler κ T E policy) Running s → (∀ o, step t o s = none) →
        (AtLock t s ∧ ∃ u, s.asyncMtx = some u ∧ u ≠ t) ∨ Joining t s ∨
          (t = .worker ∧ s.worker = .finished) :=
  ⟨fun t => (handler_sections policy).waitFree t (State.left_le t) fun _ => enabled_of_left,
    fun _ _ => blocked_cases⟩

/-! ## Triggers -/

omit [DecidableEq κ] [Inhabited T] in
theorem ClientPc.leftOfTrigger_le (pc : ClientPc T) : pc.leftOfTrigger ≤ 12 := by
  unfold leftOfTrigger
  split
  · unfold TriggerPc.leftOfTrigger
    split <;> decide
  · decide

theorem trigger_lowers {time : Time} {period : Duration} {pc : TriggerPc T}
    (h : TriggerStep k time period s pc s') (hf : s'.fault = none) :
    (s'.client k).leftOfTrigger < pc.leftOfTrigger := by
  cases h with
  | read h => cases h <;> simp
  | predicate result => cases result <;> simp
  | finish result mutex hret =>
    rw [State.client_returnWith]
    cases hret <;> simp
  | fault => cases hf
  | _ => simp

/-- A trigger can move wherever it does not lock the mutex, and each of its steps brings it nearer its
end. -/
theorem trigger_waitFree_of {policy : AsyncSchedulingPolicy} (k : κ) (busy : State κ T E → Prop)
    (hin : ∀ s, Reachable (startedHandler κ T E policy) Running s → busy s →
      ∃ time period pc, s.client k = .trigger time period pc ∧ pc ≠ .lockResume) :
    WaitFree (startedHandler κ T E policy) Running (.client k) busy 12 := by
  refine .of_rank (fun s => (s.client k).leftOfTrigger) ?_
    (fun s _ => (s.client k).leftOfTrigger_le) ?_
  · intro s hr hbusy
    obtain ⟨time, period, pc, hpc, hne⟩ := hin s hr hbusy
    refine step_enabled (t := .client k) hr ?_ ?_ ?_
    · intro hlock
      simp [AtLock, hpc, hne] at hlock
    · rintro ⟨_, j, hj, hjoin⟩
      obtain rfl : k = j := by simpa using hj
      cases hpc.symm.trans hjoin
    · rintro ⟨⟩
  · intro s t o s' hr hbusy hp hs
    obtain ⟨time, period, pc, hpc, hne⟩ := hin s hr hbusy
    have hmove := running_step hr hp hs
    cases hmove with
    | worker hclient heffect =>
      refine ⟨?_, fun _ => (congrArg ClientPc.leftOfTrigger (congrFun hclient k)).le⟩
      rintro ⟨⟩
    | client j hstep hw hno hcs =>
      by_cases hkj : k = j
      · subst hkj
        simp only [clientStep, hpc] at hcs
        have hlt := trigger_lowers (triggerAsyncCallback_step hcs) (hp.2 s' hs)
        refine ⟨fun _ => ?_, fun hne => absurd rfl hne⟩
        dsimp only
        rwa [hpc]
      · refine ⟨fun hjk => ?_, fun _ => (congrArg ClientPc.leftOfTrigger (hstep.others hkj)).le⟩
        exact absurd (by simpa using hjk.symm) hkj

/-- Under `SYNCHRONIZED` no client is in a branch of the other policy. -/
theorem running_sync (hr : Reachable (startedHandler κ T E .synchronized) Running s) (k : κ) :
    (s.client k).detachedOnly = false := by
  refine hr.invariant (I := fun s => ∀ k, (s.client k).detachedOnly = false) ?_ ?_ k
  · rintro s ⟨params, pauseThread, previousTime, _, rfl⟩ k
    rfl
  · intro s t o s' hr hI hp hs k
    have hpolicy := (running_started hr).1.steady.params
    have hmove := running_step hr hp hs
    cases hmove with
    | worker hclient heffect => exact hclient ▸ hI k
    | client j hstep hw hno hcs =>
      by_cases hkj : k = j
      · subst hkj
        exact clientStep_sync hpolicy (hI k) hcs
      · rw [hstep.others hkj]
        exact hI k

/-- **A trigger is wait-free** under `SYNCHRONIZED`: it can always move and returns or throws after 12 of
its own steps at the latest, also while the worker runs the callback.  Under `DETACHED` this is so but
for the lock of a trigger that resumes the worker. -/
theorem trigger_waitFree (k : κ) :
    WaitFree (startedHandler κ T E .synchronized) Running (.client k)
        (fun s => ∃ time period pc, s.client k = .trigger time period pc) 12 ∧
      WaitFree (startedHandler κ T E .detached) Running (.client k)
        (fun s => ∃ time period pc, s.client k = .trigger time period pc ∧ pc ≠ .lockResume) 12 := by
  refine ⟨trigger_waitFree_of k _ ?_, trigger_waitFree_of k _ fun s _ hbusy => hbusy⟩
  rintro s hr ⟨time, period, pc, hpc⟩
  refine ⟨time, period, pc, hpc, ?_⟩
  rintro rfl
  have hsync := running_sync hr k
  rw [hpc] at hsync
  cases hsync

end Steps

end AsyncFunctionHandler
