import RealtimeTools.Interleaving.Monitor
import RealtimeTools.Interleaving.System
import RealtimeTools.AsyncHandler.Params

/-!
# AsyncFunctionHandler

`async_function_handler.hpp` as threads over the members of the class: the worker thread started by
`start_thread`, and any number of clients that call the public methods.  Every atomic load or store,
lock, unlock, wait and notification is one step; plain members that are only touched under
`async_mtx_` are read and written together.  What the user's functions do is left to the oracle.
-/

open Interleaving

namespace AsyncFunctionHandler

/-- Nanoseconds of a clock. -/
abbrev Time := Int

abbrev Duration := Int

/-! ## Program points of the worker -/

/-- One `async_callback_condition_.wait(lock, predicate)`, the lock before it included. -/
inductive WaitPc
  | lock
  /-- The first half of the predicate: `trigger_in_progress_` or `!pause_thread_`. -/
  | loadFirst
  | loadStop
  | block
  | blocked
  deriving DecidableEq

/-- Which of the two loops the worker is in. -/
inductive Loop
  | synchronized
  | detached
  deriving DecidableEq

/-- Program points of the loop bodies; `measure`, `schedule` and `sleepUntil` are in the detached
loop only. -/
inductive LoopPc (T E : Type)
  | head
  | wait (pc : WaitPc)
  | testStop
  | measure
  | invoke
  | inCallback
  | storeReturn (value : T)
  | storeException (e : E)
  | schedule
  | sleepUntil
  | clear (ran : Bool)
  | unlock
  | notifyAll
  deriving DecidableEq

/-- Program points of `execute_detached_callback` before its loop. -/
inductive ProloguePc
  | testClock
  | testRate
  | loadPause
  | wait (pc : WaitPc)
  | unlock
  | readPrevious
  | sleepPeriod
  | readSteady
  deriving DecidableEq

inductive WorkerPc (T E : Type)
  | start
  | prologue (pc : ProloguePc)
  | loop (site : Loop) (pc : LoopPc T E)
  | finished
  deriving DecidableEq

/-! ## Program points of the clients -/

/-- Program points of `trigger_async_callback`. -/
inductive TriggerPc (T : Type)
  | testInitialized
  | loadException
  | rethrow
  | testPolicy
  | loadPause
  | lockResume
  | storeResume
  | storeReturn
  | storePrevious
  | unlockResume
  | notifyResume
  | testRunning
  | tryLock
  | loadTrigger
  | predicate
  | storeTrigger
  | storeTimes
  | unlock
  | notify
  | loadReturn (status ownsLock : Bool)
  /-- `lock` goes out of scope with the return. -/
  | release (status : Bool) (value : T)
  /-- The predicate has thrown and `lock` goes out of scope. -/
  | unwind
  deriving DecidableEq

/-- Program points of `wait_for_trigger_cycle_to_finish`. -/
inductive WaitCyclePc
  | testRunning
  | lock
  | loadTrigger
  | block
  | blocked
  | unlock
  deriving DecidableEq

/-- Program points of `pause_execution`; its tail under `SYNCHRONIZED` is a call of
`wait_for_trigger_cycle_to_finish`. -/
inductive PausePc
  | testPolicy
  | storePauseSynchronized
  | testRunning
  | storePause
  | lock
  | unlock
  | loadPause
  deriving DecidableEq

/-- Program points of `reset_variables`. -/
inductive ResetPc
  | lock
  | storeStop
  | storeTrigger
  | storeTimes
  | storeReturn
  | storeException
  | unlock
  deriving DecidableEq

/-- Program points of `stop_thread`. -/
inductive StopPc
  | testRunning
  | storeStop
  | lock
  | unlock
  | notify
  | join
  deriving DecidableEq

/-- Program points of `start_thread`, which calls `reset_variables` on the way. -/
inductive StartPc
  | testInitialized
  | testJoinable
  | spawn
  deriving DecidableEq

/-- The three overloads of `init`; a function is given as "not null". -/
inductive InitCall
  | callback (callback : Bool) (priority : Int32)
  | predicate (callback predicate : Bool) (priority : Int32)
  | params (callback : Bool) (params : AsyncFunctionHandlerParams)
  deriving DecidableEq

/-- The public calls of a client. -/
inductive Call
  | trigger (time : Time) (period : Duration)
  | wait
  | pause
  | reset
  | stop
  | start
  | init (call : InitCall)
  deriving DecidableEq

inductive ClientPc (T : Type)
  | idle
  | trigger (time : Time) (period : Duration) (pc : TriggerPc T)
  /-- `pausing` if `pause_execution` is the caller. -/
  | wait (pausing : Bool) (pc : WaitCyclePc)
  | pause (pc : PausePc)
  /-- `starting` if `start_thread` is the caller. -/
  | reset (starting : Bool) (pc : ResetPc)
  | stop (pc : StopPc)
  | start (pc : StartPc)
  | init (call : InitCall)
  deriving DecidableEq

/-! ## The state -/

/-- What a call throws: the stored exception of the callback, one of its own, or whatever the
predicate has thrown. -/
inductive Thrown (E : Type)
  | callback (e : E)
  | runtimeError (what : String)
  | predicate
  deriving DecidableEq

inductive Result (T E : Type)
  | unit
  | bool (value : Bool)
  | pair (status : Bool) (value : T)
  | threw (what : Thrown E)
  deriving DecidableEq

inductive Event (κ T E : Type)
  | called (k : κ) (call : Call)
  | returned (k : κ) (result : Result T E)
  | predicate (k : κ) (result : Bool)
  /-- A trigger stores true into `trigger_in_progress_`. -/
  | accepted (k : κ) (time : Time) (period : Duration)
  /-- An invocation of `async_function_` starts. -/
  | invoked (time : Time) (period : Duration)
  | callbackReturned (value : T)
  | callbackThrew (e : E)
  /-- The worker clears `trigger_in_progress_` after an invocation. -/
  | cycleEnded
  | paused (k : κ)
  | resumed (k : κ)
  /-- The clock reading a resume stores `previous_time_` from. -/
  | resumeTime (k : κ) (now : Time)
  /-- `reset_variables` has done its stores. -/
  | reset (k : κ)
  deriving DecidableEq

/-- Undefined behaviour, or an exception that leaves the worker thread: the program is over. -/
inductive Fault
  | divisionByZero
  | nullClock
  | rethrowNull
  | workerThrew (what : String)
  deriving DecidableEq

/-- The members of the class.  `async_function_` and `trigger_predicate_` are "not null". -/
structure Members (κ T E : Type) where
  params : AsyncFunctionHandlerParams
  threadPriority : Int32
  asyncFunction : Bool
  triggerPredicate : Bool
  joinable : Bool
  previousTime : Time
  currentCallbackTime : Time
  currentCallbackPeriod : Duration
  stopAsyncCallback : Bool
  triggerInProgress : Bool
  pauseThread : Bool
  asyncCallbackReturn : T
  asyncExceptionPtr : Option E
  asyncMtx : Mutex (Thread κ)
  asyncCallbackCondition : CondVar (Thread κ)
  cycleEndCondition : CondVar (Thread κ)

structure State (κ T E : Type) extends Members κ T E where
  worker : WorkerPc T E
  /-- A local variable of `execute_detached_callback`. -/
  nextIterationTime : Time
  client : κ → ClientPc T
  history : List (Event κ T E)
  fault : Option Fault

/-- What the environment decides at a step: the next call of a client, whether `try_to_lock` fails
although the mutex is free, how the predicate (`none`: it throws) and the callback end, the readings
of `params_.clock` and of the steady clock, and the thread a notification reaches. -/
structure Oracle (κ T E : Type) where
  call : Call := .wait
  spuriousFail : Bool := false
  predicate : Option Bool := some true
  callback : Except E T
  now : Time := 0
  steadyNow : Time := 0
  woken : Thread κ := .worker

variable {κ T E : Type}

namespace Members

def isInitialized (m : Members κ T E) : Bool := m.asyncFunction && m.triggerPredicate

end Members

namespace State

def goto [DecidableEq κ] (s : State κ T E) (k : κ) (pc : ClientPc T) : State κ T E :=
  { s with client := Function.update s.client k pc }

def record (s : State κ T E) (e : Event κ T E) : State κ T E :=
  { s with history := s.history ++ [e] }

def returnWith [DecidableEq κ] (s : State κ T E) (k : κ) (result : Result T E) : State κ T E :=
  (s.goto k .idle).record (.returned k result)

@[simp] theorem client_goto [DecidableEq κ] (s : State κ T E) (k : κ) (pc : ClientPc T) :
    (s.goto k pc).client k = pc := by
  simp [goto]

@[simp] theorem client_record (s : State κ T E) (e : Event κ T E) :
    (s.record e).client = s.client := rfl

end State

/-! ## The worker -/

/-- `condition.wait(lock, [this] { return first || stop_async_callback_; })`, from the lock before
it until it returns to `exit`. -/
def waitAsync (s : State κ T E) [DecidableEq κ] (first : Bool) (site : WaitPc → WorkerPc T E)
    (exit : WorkerPc T E) : WaitPc → Option (State κ T E)
  | .lock =>
      if s.asyncMtx = none then some { s with asyncMtx := some .worker, worker := site .loadFirst }
      else none
  | .loadFirst => some { s with worker := if first then exit else site .loadStop }
  | .loadStop => some { s with worker := if s.stopAsyncCallback then exit else site .block }
  | .block =>
      some { s with
        asyncMtx := none
        asyncCallbackCondition := s.asyncCallbackCondition.wait .worker
        worker := site .blocked }
  -- Notified or not, the predicate is tested again under the mutex.
  | .blocked =>
      some { s with
        asyncCallbackCondition := s.asyncCallbackCondition.wake .worker
        worker := site .lock }

/-- What the two loops have in common: `first` is the first half of the predicate they wait for,
`run` comes after a stop test that fails, and `next` after the result of the callback is stored. -/
def loopBody [DecidableEq κ] (site : Loop) (first : Bool) (run next : LoopPc T E)
    (s : State κ T E) (o : Oracle κ T E) : LoopPc T E → Option (State κ T E)
  | .head =>
      if s.stopAsyncCallback then some { s with worker := .finished }
      else some { s with worker := .loop site (.wait .lock) }
  | .wait pc => waitAsync s first (fun pc => .loop site (.wait pc)) (.loop site .testStop) pc
  -- A stopped worker still clears the flag and notifies the waiters.
  | .testStop =>
      some { s with worker := .loop site (if s.stopAsyncCallback then .clear false else run) }
  | .invoke =>
      some ({ s with worker := .loop site .inCallback }.record
        (.invoked s.currentCallbackTime s.currentCallbackPeriod))
  | .inCallback =>
      match o.callback with
      | .ok value =>
          some ({ s with worker := .loop site (.storeReturn value) }.record
            (.callbackReturned value))
      | .error e =>
          some ({ s with worker := .loop site (.storeException e) }.record (.callbackThrew e))
  | .storeReturn value => some { s with asyncCallbackReturn := value, worker := .loop site next }
  | .storeException e => some { s with asyncExceptionPtr := some e, worker := .loop site next }
  -- The end of a cycle, unless the worker has been stopped in its wait.
  | .clear ran =>
      let s := { s with triggerInProgress := false, worker := .loop site .unlock }
      some (if ran then s.record .cycleEnded else s)
  | .unlock => some { s with asyncMtx := none, worker := .loop site .notifyAll }
  | .notifyAll =>
      some { s with cycleEndCondition := s.cycleEndCondition.notifyAll, worker := .loop site .head }
  | .measure | .schedule | .sleepUntil => none

def executeSynchronizedCallback [DecidableEq κ] (s : State κ T E) (o : Oracle κ T E) :
    LoopPc T E → Option (State κ T E) :=
  loopBody .synchronized s.triggerInProgress .invoke (.clear true) s o

/-- The arguments of the callback are the members that `measure` has just stored. -/
def executeDetachedCallback [DecidableEq κ] (s : State κ T E) (o : Oracle κ T E) :
    LoopPc T E → Option (State κ T E)
  | .measure =>
      some { s with
        previousTime := o.now
        currentCallbackTime := o.now
        currentCallbackPeriod := o.now - s.previousTime
        worker := .loop .detached .invoke }
  | .schedule =>
      -- The period has been computed before the loop; `params_` has not changed since.
      match s.params.period with
      | some period =>
          some { s with
            nextIterationTime :=
              nextIterationTime s.params.execRate period s.nextIterationTime o.steadyNow
            worker := .loop .detached .sleepUntil }
      | none => some { s with fault := some .divisionByZero }
  | .sleepUntil => some { s with worker := .loop .detached (.clear true) }
  | pc => loopBody .detached (!s.pauseThread) .measure .schedule s o pc

def clockText : String :=
  "AsyncFunctionHandler: Clock must be set when using DETACHED scheduling policy."

def rateText : String :=
  "AsyncFunctionHandler: Execution rate must be set when using DETACHED scheduling policy."

/-- `execute_detached_callback` up to its loop. -/
def detachedPrologue [DecidableEq κ] (s : State κ T E) (o : Oracle κ T E) :
    ProloguePc → Option (State κ T E)
  -- An exception that leaves the thread function ends the program.
  | .testClock =>
      if s.params.clock then some { s with worker := .prologue .testRate }
      else some { s with fault := some (.workerThrew clockText) }
  | .testRate =>
      if s.params.execRate = 0 then some { s with fault := some (.workerThrew rateText) }
      else some { s with worker := .prologue .loadPause }
  | .loadPause =>
      some { s with worker := .prologue (if s.pauseThread then .wait .lock else .readPrevious) }
  | .wait pc => waitAsync s (!s.pauseThread) (fun pc => .prologue (.wait pc)) (.prologue .unlock) pc
  | .unlock => some { s with asyncMtx := none, worker := .prologue .readPrevious }
  | .readPrevious => some { s with previousTime := o.now, worker := .prologue .sleepPeriod }
  | .sleepPeriod => some { s with worker := .prologue .readSteady }
  | .readSteady =>
      some { s with nextIterationTime := o.steadyNow, worker := .loop .detached .head }

/-- The thread function of `start_thread`. -/
def workerStep [DecidableEq κ] (s : State κ T E) (o : Oracle κ T E) : Option (State κ T E) :=
  match s.worker with
  -- The scheduling, affinity and name of the thread come first; they touch no member.
  | .start =>
      if s.params.schedulingPolicy = .synchronized then
        some { s with worker := .loop .synchronized .head }
      else some { s with worker := .prologue .testClock }
  | .prologue pc => detachedPrologue s o pc
  | .loop .synchronized pc => executeSynchronizedCallback s o pc
  | .loop .detached pc => executeDetachedCallback s o pc
  | .finished => none

/-! ## The clients -/

section Clients

variable [DecidableEq κ]

def notInitializedText : String := "AsyncFunctionHandler: need to be initialized first!"

def notStartedText : String :=
  "AsyncFunctionHandler: need to start the async callback thread first before triggering!"

/-- `std::unique_lock lock(async_mtx_)` in client `k`. -/
def lockThen (s : State κ T E) (k : κ) (next : ClientPc T) : Option (State κ T E) :=
  if s.asyncMtx = none then some ({ s with asyncMtx := some (.client k) }.goto k next) else none

/-- `async_callback_condition_.notify_one()` in client `k`. -/
def notifyThen (s : State κ T E) (k : κ) (o : Oracle κ T E) (next : ClientPc T) :
    Option (State κ T E) :=
  (s.asyncCallbackCondition.notifyOne o.woken).map fun condition =>
    { s with asyncCallbackCondition := condition }.goto k next

def triggerAsyncCallback [Inhabited T] (s : State κ T E) (k : κ) (o : Oracle κ T E) (time : Time)
    (period : Duration) : TriggerPc T → Option (State κ T E)
  | .testInitialized =>
      if s.isInitialized then some (s.goto k (.trigger time period .loadException))
      else some (s.returnWith k (.threw (.runtimeError notInitializedText)))
  | .loadException =>
      some (s.goto k (.trigger time period
        (if s.asyncExceptionPtr.isSome then .rethrow else .testPolicy)))
  | .rethrow =>
      match s.asyncExceptionPtr with
      | some e => some (s.returnWith k (.threw (.callback e)))
      | none => some { s with fault := some .rethrowNull }
  | .testPolicy =>
      some (s.goto k (.trigger time period
        (if s.params.schedulingPolicy = .detached then .loadPause else .testRunning)))
  -- DETACHED: resume if paused.
  | .loadPause =>
      some (s.goto k (.trigger time period
        (if s.pauseThread then .lockResume else .loadReturn true false)))
  | .lockResume => lockThen s k (.trigger time period .storeResume)
  | .storeResume =>
      some (({ s with pauseThread := false }.goto k (.trigger time period .storeReturn)).record
        (.resumed k))
  | .storeReturn =>
      some ({ s with asyncCallbackReturn := default }.goto k (.trigger time period .storePrevious))
  | .storePrevious =>
      match s.params.period with
      | some syncPeriod =>
          if s.params.clock then
            some (({ s with previousTime := o.now - syncPeriod }.goto k
              (.trigger time period .unlockResume)).record (.resumeTime k o.now))
          else some { s with fault := some .nullClock }
      | none => some { s with fault := some .divisionByZero }
  | .unlockResume => some ({ s with asyncMtx := none }.goto k (.trigger time period .notifyResume))
  | .notifyResume => notifyThen s k o (.trigger time period (.loadReturn true false))
  -- SYNCHRONIZED: start a cycle unless one is in progress.
  | .testRunning =>
      if s.joinable then some (s.goto k (.trigger time period .tryLock))
      else some (s.returnWith k (.threw (.runtimeError notStartedText)))
  -- Without the mutex the call only reads the last return value.
  | .tryLock =>
      let (ownsLock, asyncMtx) := s.asyncMtx.tryLock (.client k) o.spuriousFail
      some ({ s with asyncMtx }.goto k (.trigger time period
        (if ownsLock then .loadTrigger else .loadReturn false false)))
  | .loadTrigger =>
      some (s.goto k (.trigger time period
        (if s.triggerInProgress then .loadReturn false true else .predicate)))
  | .predicate =>
      match o.predicate with
      | some result =>
          some ((s.goto k (.trigger time period
            (if result then .storeTrigger else .loadReturn false true))).record
              (.predicate k result))
      -- The predicate throws out of the call, which still owns the mutex.
      | none => some (s.goto k (.trigger time period .unwind))
  | .storeTrigger =>
      some (({ s with triggerInProgress := true }.goto k
        (.trigger time period .storeTimes)).record (.accepted k time period))
  | .storeTimes =>
      some ({ s with currentCallbackTime := time, currentCallbackPeriod := period }.goto k
        (.trigger time period .unlock))
  | .unlock => some ({ s with asyncMtx := none }.goto k (.trigger time period .notify))
  | .notify => notifyThen s k o (.trigger time period (.loadReturn true false))
  -- `lock` is still owned where the flag or the predicate has refused the trigger.
  | .loadReturn status ownsLock =>
      if ownsLock then
        some (s.goto k (.trigger time period (.release status s.asyncCallbackReturn)))
      else some (s.returnWith k (.pair status s.asyncCallbackReturn))
  | .release status value =>
      some ({ s with asyncMtx := none }.returnWith k (.pair status value))
  | .unwind => some ({ s with asyncMtx := none }.returnWith k (.threw .predicate))

def waitForTriggerCycleToFinish (s : State κ T E) (k : κ) (pausing : Bool) :
    WaitCyclePc → Option (State κ T E)
  | .testRunning =>
      if s.joinable then some (s.goto k (.wait pausing .lock))
      else some (s.returnWith k (.bool false))
  | .lock => lockThen s k (.wait pausing .loadTrigger)
  | .loadTrigger =>
      some (s.goto k (.wait pausing (if s.triggerInProgress then .block else .unlock)))
  | .block =>
      some ({ s with
        asyncMtx := none
        cycleEndCondition := s.cycleEndCondition.wait (.client k) }.goto k (.wait pausing .blocked))
  -- Notified or not, the flag is tested again under the mutex.
  | .blocked =>
      some ({ s with cycleEndCondition := s.cycleEndCondition.wake (.client k) }.goto k
        (.wait pausing .lock))
  | .unlock => some ({ s with asyncMtx := none }.returnWith k (.bool true))

def pauseExecution (s : State κ T E) (k : κ) : PausePc → Option (State κ T E)
  | .testPolicy =>
      some (s.goto k (.pause
        (if s.params.schedulingPolicy = .synchronized then .storePauseSynchronized
          else .testRunning)))
  -- The rest is `wait_for_trigger_cycle_to_finish`, called with `pause_thread_` set.
  | .storePauseSynchronized =>
      some (({ s with pauseThread := true }.goto k (.wait true .testRunning)).record (.paused k))
  | .testRunning => some (s.goto k (.pause (if s.joinable then .storePause else .loadPause)))
  | .storePause =>
      some (({ s with pauseThread := true }.goto k (.pause .lock)).record (.paused k))
  | .lock => lockThen s k (.pause .unlock)
  -- Taking the mutex waits for a callback that is running.
  | .unlock => some ({ s with asyncMtx := none }.returnWith k (.bool true))
  | .loadPause => some (s.returnWith k (.bool s.pauseThread))

def resetVariables [Inhabited T] (s : State κ T E) (k : κ) (starting : Bool) :
    ResetPc → Option (State κ T E)
  | .lock => lockThen s k (.reset starting .storeStop)
  | .storeStop =>
      some ({ s with stopAsyncCallback := false }.goto k (.reset starting .storeTrigger))
  | .storeTrigger =>
      some ({ s with triggerInProgress := false }.goto k (.reset starting .storeTimes))
  | .storeTimes =>
      some ({ s with currentCallbackTime := 0, currentCallbackPeriod := 0 }.goto k
        (.reset starting .storeReturn))
  | .storeReturn =>
      some ({ s with asyncCallbackReturn := default }.goto k (.reset starting .storeException))
  | .storeException =>
      some (({ s with asyncExceptionPtr := none }.goto k (.reset starting .unlock)).record
        (.reset k))
  -- Nobody has been notified.
  | .unlock =>
      if starting then some ({ s with asyncMtx := none }.goto k (.start .spawn))
      else some ({ s with asyncMtx := none }.returnWith k .unit)

def stopThread (s : State κ T E) (k : κ) (o : Oracle κ T E) : StopPc → Option (State κ T E)
  | .testRunning =>
      if s.joinable then some (s.goto k (.stop .storeStop)) else some (s.returnWith k .unit)
  | .storeStop => some ({ s with stopAsyncCallback := true }.goto k (.stop .lock))
  | .lock => lockThen s k (.stop .unlock)
  -- The critical section is empty: it only waits for the worker to block.
  | .unlock => some ({ s with asyncMtx := none }.goto k (.stop .notify))
  | .notify => notifyThen s k o (.stop .join)
  -- `join` blocks until the thread function has returned.
  | .join =>
      match s.worker with
      | .finished => some ({ s with joinable := false }.returnWith k .unit)
      | _ => none

def startThread (s : State κ T E) (k : κ) : StartPc → Option (State κ T E)
  | .testInitialized =>
      if s.isInitialized then some (s.goto k (.start .testJoinable))
      else some (s.returnWith k (.threw (.runtimeError notInitializedText)))
  | .testJoinable =>
      if s.joinable then some (s.returnWith k .unit) else some (s.goto k (.reset true .lock))
  | .spawn => some ({ s with joinable := true, worker := .start }.returnWith k .unit)

/-! ### `init`

No other call may run while a handler is initialised, so an overload is one step; an error is the
text of the exception. -/

def nullCallbackText : String :=
  "AsyncFunctionHandler: parsed function to call asynchronously is not valid!"

def nullPredicateText : String := "AsyncFunctionHandler: parsed trigger predicate is not valid!"

def reinitializeText : String :=
  "AsyncFunctionHandler: Cannot reinitialize while the thread is " ++
    "running. Please stop the async callback first!"

/-- `init(callback, thread_priority)`. -/
def init (callback : Bool) (priority : Int32) (m : Members κ T E) :
    Except String (Members κ T E) :=
  if callback = false then .error nullCallbackText
  else if m.joinable then .error reinitializeText
  else .ok { m with asyncFunction := true, threadPriority := priority }

/-- `init(callback, trigger_predicate, thread_priority)`. -/
def initPredicate (callback predicate : Bool) (priority : Int32) (m : Members κ T E) :
    Except String (Members κ T E) := do
  if predicate = false then throw nullPredicateText
  let m ← init callback priority m
  return { m with triggerPredicate := true }

/-- `init(callback, params)`.  The value `validate` returns is not looked at; only its exception
gets through. -/
def initParams (callback : Bool) (params : AsyncFunctionHandlerParams) (m : Members κ T E) :
    Except String (Members κ T E) := do
  if let .throws what := params.validate then throw what
  let m ← initPredicate callback params.triggerPredicate params.threadPriority m
  return { m with params := params, pauseThread := params.waitUntilInitialTrigger }

def InitCall.apply : InitCall → Members κ T E → Except String (Members κ T E)
  | .callback f priority => init f priority
  | .predicate f p priority => initPredicate f p priority
  | .params f p => initParams f p

def initStep (s : State κ T E) (k : κ) (call : InitCall) : Option (State κ T E) :=
  match call.apply s.toMembers with
  | .ok m => some ({ s with toMembers := m }.returnWith k .unit)
  | .error what => some (s.returnWith k (.threw (.runtimeError what)))

/-! ### All calls -/

/-- The first program point of a call. -/
def Call.entry : Call → ClientPc T
  | .trigger time period => .trigger time period .testInitialized
  | .wait => .wait false .testRunning
  | .pause => .pause .testPolicy
  | .reset => .reset false .lock
  | .stop => .stop .testRunning
  | .start => .start .testInitialized
  | .init call => .init call

def clientStep [Inhabited T] (s : State κ T E) (k : κ) (o : Oracle κ T E) :
    Option (State κ T E) :=
  match s.client k with
  | .idle => some ((s.goto k o.call.entry).record (.called k o.call))
  | .trigger time period pc => triggerAsyncCallback s k o time period pc
  | .wait pausing pc => waitForTriggerCycleToFinish s k pausing pc
  | .pause pc => pauseExecution s k pc
  | .reset starting pc => resetVariables s k starting pc
  | .stop pc => stopThread s k o pc
  | .start pc => startThread s k pc
  | .init call => initStep s k call

/-- After a fault nothing moves. -/
def step [Inhabited T] (t : Thread κ) (o : Oracle κ T E) (s : State κ T E) :
    Option (State κ T E) :=
  if s.fault.isSome then none
  else
    match t with
    | .worker => workerStep s o
    | .client k => clientStep s k o

/-- A handler after its default constructor; no thread has been started. -/
def fresh [Inhabited T] : State κ T E where
  params := {}
  threadPriority := 0
  asyncFunction := false
  triggerPredicate := true
  joinable := false
  previousTime := 0
  currentCallbackTime := 0
  currentCallbackPeriod := 0
  stopAsyncCallback := false
  triggerInProgress := false
  pauseThread := false
  asyncCallbackReturn := default
  asyncExceptionPtr := none
  asyncMtx := none
  asyncCallbackCondition := ∅
  cycleEndCondition := ∅
  worker := .finished
  nextIterationTime := 0
  client := fun _ => .idle
  history := []
  fault := none

/-- A handler right after `start_thread`; `pause_thread_` and `previous_time_` are as they were. -/
def started [Inhabited T] (params : AsyncFunctionHandlerParams) (pauseThread : Bool)
    (previousTime : Time) : State κ T E :=
  { (fresh : State κ T E) with
    params := params
    threadPriority := params.threadPriority
    asyncFunction := true
    joinable := true
    previousTime := previousTime
    pauseThread := pauseThread
    worker := .start }

/-- All runs from the construction of a handler on. -/
def freshHandler (κ T E : Type) [DecidableEq κ] [Inhabited T] :
    System (Thread κ) (Oracle κ T E) (State κ T E) where
  start s := s = fresh
  step := step

/-- All runs of a started handler with the given policy, whatever its other parameters are. -/
def startedHandler (κ T E : Type) [DecidableEq κ] [Inhabited T] (policy : AsyncSchedulingPolicy) :
    System (Thread κ) (Oracle κ T E) (State κ T E) where
  start s := ∃ params pauseThread previousTime,
    params.schedulingPolicy = policy ∧ s = started params pauseThread previousTime
  step := step

end Clients

end AsyncFunctionHandler
