import RealtimeTools.Interleaving.Monitor
import RealtimeTools.GoalHandle.Handle

/-!
# RealtimeServerGoalHandle, step by step

The same methods with every atomic load or store, lock and unlock as a step of its own: one thread
calls `runNonRealtime`, any number of users call the other methods, and the action client may ask
for a cancellation at any time.  Every call on `gh_` is one step.
-/

open Interleaving

namespace GoalHandle

/-- Who moves: the thread that calls `runNonRealtime`, the action client, or a user. -/
inductive Actor (κ : Type)
  | nonRealtime
  | actionClient
  | user (k : κ)
  deriving DecidableEq

/-- Program points of `runNonRealtime`, the tests in the order of evaluation. -/
inductive RunPc
  | idle
  | testValid
  | lock
  | loadExecute
  | testExecuting
  | testActive
  | testCanceling
  | execute
  | loadRequest (o : Outcome)
  | testGuard (o : Outcome)
  | finish (o : Outcome)
  | storeRequest (o : Outcome)
  | testFeedback
  | testFeedbackExecuting
  | publishFeedback
  | unlock
  deriving DecidableEq

/-- Program points of the three setters. -/
inductive RequestPc
  | loadExecute
  | loadSucceed
  | loadAbort
  | loadCancel
  | lock
  | storeResult
  | storeRequest
  | unlock
  deriving DecidableEq

/-- Program points of `execute`. -/
inductive ExecutePc
  | loadSucceed
  | loadAbort
  | loadCancel
  | lock
  | storeExecute
  | unlock
  deriving DecidableEq

/-- Program points of `setFeedback` and `trySetFeedback`; only the latter has a callback to run. -/
inductive FeedbackPc
  | tryLock
  | update
  | storeFeedback
  | unlock
  deriving DecidableEq

/-- The public calls of a user. -/
inductive Call (R F : Type)
  | execute
  | set (o : Outcome) (result : Option R)
  | setFeedback (feedback : Option (FeedbackPtr F))
  | trySetFeedback

inductive UserPc (R F : Type)
  | idle
  | execute (pc : ExecutePc)
  | set (o : Outcome) (result : Option R) (pc : RequestPc)
  | setFeedback (feedback : Option (FeedbackPtr F)) (pc : FeedbackPc)
  | trySetFeedback (pc : FeedbackPc)
  deriving DecidableEq

inductive Event (κ R F : Type)
  | called (k : κ) (call : Call R F)
  /-- A call returns; only the feedback calls return a value. -/
  | returned (k : κ) (result : Option Bool)
  /-- A setter stores true into the flag of its outcome. -/
  | requested (k : κ) (o : Outcome) (result : Option R)
  /-- `runNonRealtime` stores false into the flag of an outcome. -/
  | withdrawn (o : Outcome)
  /-- `req_feedback_` is stored; the message behind it, if any, reads `content`. -/
  | feedbackSet (k : κ) (content : Option F)
  | feedbackPublished (content : F)

structure State (κ R F : Type) where
  handle : Handle R F
  mutex : Mutex (Actor κ)
  run : RunPc
  user : κ → UserPc R F
  history : List (Event κ R F)

/-- What the environment decides at a step: the next call of a user, whether `try_to_lock` fails
although the mutex is free, and what the callback of `trySetFeedback` makes of the preallocated
message next; the callback returns at `none`. -/
structure Oracle (R F : Type) where
  call : Call R F := .execute
  spuriousFail : Bool := false
  update : Option F := none

variable {κ R F : Type}

namespace State

def goto [DecidableEq κ] (s : State κ R F) (k : κ) (pc : UserPc R F) : State κ R F :=
  { s with user := Function.update s.user k pc }

def record (s : State κ R F) (e : Event κ R F) : State κ R F :=
  { s with history := s.history ++ [e] }

end State

def initial (gh : Option (Goal R F)) (preallocatedFeedback : F) : State κ R F where
  handle := Handle.create gh preallocatedFeedback
  mutex := none
  run := .idle
  user := fun _ => .idle
  history := []

/-- The second half of the test for an outcome in `runNonRealtime`. -/
def outcomeGuard (h : Handle R F) : Outcome → Bool
  | .abort => h.isExecuting
  | .cancel => h.isActive
  | .succeed => !h.isCanceling

/-- Where `runNonRealtime` goes after the branch of an outcome. -/
def afterOutcome : Outcome → RunPc
  | .abort => .loadRequest .cancel
  | .cancel => .loadRequest .succeed
  | .succeed => .testFeedback

/-- A throwing call on `gh_` ends in the `catch` block, and from there the guard is released. -/
def callGoal (s : State κ R F) (f : Goal R F → Option (Goal R F)) (next : RunPc) : State κ R F :=
  match s.handle.gh.bind f with
  | some g => { s with handle := { s.handle with gh := some g }, run := next }
  | none => { s with run := .unlock }

def runNonRealtime (s : State κ R F) : Option (State κ R F) :=
  match s.run with
  | .idle => some { s with run := .testValid }
  -- Without a goal the mutex is not taken.
  | .testValid => some { s with run := if s.handle.valid then .lock else .idle }
  | .lock =>
      if s.mutex = none then some { s with mutex := some .nonRealtime, run := .loadExecute } else none
  | .loadExecute =>
      some { s with run := if s.handle.reqExecute then .testExecuting else .loadRequest .abort }
  | .testExecuting =>
      some { s with run := if !s.handle.isExecuting then .testActive else .loadRequest .abort }
  | .testActive =>
      some { s with run := if s.handle.isActive then .testCanceling else .loadRequest .abort }
  | .testCanceling =>
      some { s with run := if !s.handle.isCanceling then .execute else .loadRequest .abort }
  | .execute => some (callGoal s Goal.execute (.loadRequest .abort))
  | .loadRequest o =>
      some { s with run := if s.handle.requested o then .testGuard o else afterOutcome o }
  | .testGuard o =>
      some { s with run := if outcomeGuard s.handle o then .finish o else afterOutcome o }
  | .finish o => some (callGoal s (Goal.finish o s.handle.reqResult) (.storeRequest o))
  | .storeRequest o =>
      some ({ s with handle := s.handle.setRequested false o, run := afterOutcome o }.record
        (.withdrawn o))
  | .testFeedback =>
      some { s with run := if s.handle.reqFeedback.isSome then .testFeedbackExecuting else .unlock }
  | .testFeedbackExecuting =>
      some { s with run := if s.handle.isExecuting then .publishFeedback else .unlock }
  | .publishFeedback =>
      match s.handle.reqFeedback with
      | some feedback =>
          let content := s.handle.content feedback
          let gh := s.handle.gh.map (Goal.publishFeedback content)
          some ({ s with handle := { s.handle with gh }, run := .unlock }.record
            (.feedbackPublished content))
      | none => none
  | .unlock => some { s with mutex := none, run := .idle }

section Steps

variable [DecidableEq κ]

/-- `setAborted`, `setCanceled` and `setSucceeded`, by the outcome they ask for. -/
def set (s : State κ R F) (k : κ) (o : Outcome) (result : Option R) :
    RequestPc → Option (State κ R F)
  | .loadExecute =>
      if s.handle.reqExecute then some (s.goto k (.set o result .loadSucceed))
      else some ((s.goto k .idle).record (.returned k none))
  | .loadSucceed =>
      if !s.handle.reqSucceed then some (s.goto k (.set o result .loadAbort))
      else some ((s.goto k .idle).record (.returned k none))
  | .loadAbort =>
      if !s.handle.reqAbort then some (s.goto k (.set o result .loadCancel))
      else some ((s.goto k .idle).record (.returned k none))
  | .loadCancel =>
      if !s.handle.reqCancel then some (s.goto k (.set o result .lock))
      else some ((s.goto k .idle).record (.returned k none))
  -- The flags were loaded before the lock and are not loaded again.
  | .lock =>
      if s.mutex = none then
        some ({ s with mutex := some (.user k) }.goto k (.set o result .storeResult))
      else none
  | .storeResult =>
      some ({ s with handle := { s.handle with reqResult := result } }.goto k
        (.set o result .storeRequest))
  | .storeRequest =>
      some (({ s with handle := s.handle.setRequested true o }.goto k
        (.set o result .unlock)).record (.requested k o result))
  | .unlock => some (({ s with mutex := none }.goto k .idle).record (.returned k none))

def execute (s : State κ R F) (k : κ) : ExecutePc → Option (State κ R F)
  | .loadSucceed =>
      if !s.handle.reqSucceed then some (s.goto k (.execute .loadAbort))
      else some ((s.goto k .idle).record (.returned k none))
  | .loadAbort =>
      if !s.handle.reqAbort then some (s.goto k (.execute .loadCancel))
      else some ((s.goto k .idle).record (.returned k none))
  | .loadCancel =>
      if !s.handle.reqCancel then some (s.goto k (.execute .lock))
      else some ((s.goto k .idle).record (.returned k none))
  -- As in `set`, nothing is tested again under the mutex.
  | .lock =>
      if s.mutex = none then
        some ({ s with mutex := some (.user k) }.goto k (.execute .storeExecute))
      else none
  | .storeExecute =>
      some ({ s with handle := { s.handle with reqExecute := true } }.goto k (.execute .unlock))
  | .unlock => some (({ s with mutex := none }.goto k .idle).record (.returned k none))

/-- `req_feedback_ = feedback`. -/
def storeFeedback (s : State κ R F) (k : κ) (feedback : Option (FeedbackPtr F)) : State κ R F :=
  { s with handle := { s.handle with reqFeedback := feedback } }.record
    (.feedbackSet k (feedback.map s.handle.content))

def setFeedback (s : State κ R F) (k : κ) (oracle : Oracle R F)
    (feedback : Option (FeedbackPtr F)) : FeedbackPc → Option (State κ R F)
  | .tryLock =>
      let (ownsLock, mutex) := s.mutex.tryLock (.user k) oracle.spuriousFail
      let s := { s with mutex }
      if ownsLock then some (s.goto k (.setFeedback feedback .storeFeedback))
      else some ((s.goto k .idle).record (.returned k (some false)))
  | .storeFeedback => some ((storeFeedback s k feedback).goto k (.setFeedback feedback .unlock))
  | .unlock => some (({ s with mutex := none }.goto k .idle).record (.returned k (some true)))
  | .update => none

def trySetFeedback (s : State κ R F) (k : κ) (oracle : Oracle R F) :
    FeedbackPc → Option (State κ R F)
  | .tryLock =>
      let (ownsLock, mutex) := s.mutex.tryLock (.user k) oracle.spuriousFail
      let s := { s with mutex }
      if ownsLock then some (s.goto k (.trySetFeedback .update))
      else some ((s.goto k .idle).record (.returned k (some false)))
  | .update =>
      match oracle.update with
      -- The callback writes the preallocated message as often as it likes.
      | some content => some { s with handle := { s.handle with preallocatedFeedback := content } }
      | none => some (s.goto k (.trySetFeedback .storeFeedback))
  | .storeFeedback =>
      some ((storeFeedback s k (some .preallocated)).goto k (.trySetFeedback .unlock))
  | .unlock => some (({ s with mutex := none }.goto k .idle).record (.returned k (some true)))

/-- The first program point of a call. -/
def Call.entry : Call R F → UserPc R F
  | .execute => .execute .loadSucceed
  | .set o result => .set o result .loadExecute
  | .setFeedback feedback => .setFeedback feedback .tryLock
  | .trySetFeedback => .trySetFeedback .tryLock

def userStep (s : State κ R F) (k : κ) (oracle : Oracle R F) : Option (State κ R F) :=
  match s.user k with
  | .idle => some ((s.goto k oracle.call.entry).record (.called k oracle.call))
  | .execute pc => execute s k pc
  | .set o result pc => set s k o result pc
  | .setFeedback feedback pc => setFeedback s k oracle feedback pc
  | .trySetFeedback pc => trySetFeedback s k oracle pc

def step : Actor κ → Oracle R F → State κ R F → Option (State κ R F)
  | .nonRealtime, _, s => runNonRealtime s
  | .actionClient, _, s => some { s with handle := s.handle.clientCancel }
  | .user k, oracle, s => userStep s k oracle

/-- All runs over a fresh handle, whatever its goal has been through before. -/
def goalHandle (κ R F : Type) [DecidableEq κ] : System (Actor κ) (Oracle R F) (State κ R F) where
  start s := ∃ gh content, s = initial gh content
  step := step

end Steps

end GoalHandle
