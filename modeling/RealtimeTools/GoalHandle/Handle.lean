import RealtimeTools.Interleaving.System

/-!
# RealtimeServerGoalHandle, one call at a time

`realtime_server_goal_handle.hpp` with every public call run to completion, over the state machine
of the `rclcpp_action` goal behind `gh_`.  `setAborted`, `setCanceled` and `setSucceeded` only
record a request; `runNonRealtime` applies what has been requested, as far as its guards allow.
-/

open Interleaving

namespace GoalHandle

/-- The states of a goal of an action server. -/
inductive GoalStatus
  | accepted
  | executing
  | canceling
  | succeeded
  | aborted
  | canceled
  deriving DecidableEq, Repr

/-- The ways to end a goal: `abort`, `canceled` and `succeed` of `gh_`. -/
inductive Outcome
  | abort
  | cancel
  | succeed
  deriving DecidableEq, Repr

namespace GoalStatus

def isExecuting (g : GoalStatus) : Bool := g == .executing

def isCanceling (g : GoalStatus) : Bool := g == .canceling

def isActive : GoalStatus → Bool
  | .accepted | .executing | .canceling => true
  | .succeeded | .aborted | .canceled => false

/-- `gh_->execute()`; `none` is a thrown `RCLErrorBase`. -/
def execute : GoalStatus → Option GoalStatus
  | .accepted => some .executing
  | _ => none

/-- The transition of an outcome; `none` is a thrown `RCLErrorBase`. -/
def finish : Outcome → GoalStatus → Option GoalStatus
  | .succeed, .executing | .succeed, .canceling => some .succeeded
  | .abort, .executing | .abort, .canceling => some .aborted
  | .cancel, .canceling => some .canceled
  | _, _ => none

/-- A cancel request of the action client; where it is not legal nothing happens. -/
def clientCancel : GoalStatus → GoalStatus
  | .accepted | .executing => .canceling
  | g => g

end GoalStatus

/-- The goal behind `gh_`: its state, and what it has sent to the action client. -/
structure Goal (R F : Type) where
  status : GoalStatus
  /-- Transitions into a terminal state, with the result pointer they delivered. -/
  results : List (Outcome × Option R)
  feedback : List F
  deriving DecidableEq

namespace Goal

variable {R F : Type}

def execute (g : Goal R F) : Option (Goal R F) :=
  g.status.execute.map fun status => { g with status }

def finish (o : Outcome) (result : Option R) (g : Goal R F) : Option (Goal R F) :=
  (g.status.finish o).map fun status =>
    { g with status, results := g.results ++ [(o, result)] }

def publishFeedback (content : F) (g : Goal R F) : Goal R F :=
  { g with feedback := g.feedback ++ [content] }

end Goal

/-- A non-null `FeedbackSharedPtr`: the preallocated message, or one the caller owns. -/
inductive FeedbackPtr (F : Type)
  | preallocated
  | external (content : F)
  deriving DecidableEq, Repr

/-- The members of the class; `none` is a null pointer.  The preallocated result is left out: no
method reads it. -/
structure Handle (R F : Type) where
  reqAbort : Bool
  reqCancel : Bool
  reqSucceed : Bool
  reqExecute : Bool
  reqResult : Option R
  reqFeedback : Option (FeedbackPtr F)
  gh : Option (Goal R F)
  preallocatedFeedback : F

namespace Handle

variable {R F : Type}

/-- The constructor. -/
def create (gh : Option (Goal R F)) (preallocatedFeedback : F) : Handle R F where
  reqAbort := false
  reqCancel := false
  reqSucceed := false
  reqExecute := false
  reqResult := none
  reqFeedback := none
  gh := gh
  preallocatedFeedback := preallocatedFeedback

/-- The flag of an outcome. -/
def requested (h : Handle R F) : Outcome → Bool
  | .abort => h.reqAbort
  | .cancel => h.reqCancel
  | .succeed => h.reqSucceed

def setRequested (h : Handle R F) (b : Bool) : Outcome → Handle R F
  | .abort => { h with reqAbort := b }
  | .cancel => { h with reqCancel := b }
  | .succeed => { h with reqSucceed := b }

@[simp] theorem requested_setRequested (h : Handle R F) (b : Bool) (o o' : Outcome) :
    (h.setRequested b o).requested o' = if o' = o then b else h.requested o' := by
  cases o <;> cases o' <;> rfl

@[simp] theorem gh_setRequested (h : Handle R F) (b : Bool) (o : Outcome) :
    (h.setRequested b o).gh = h.gh := by
  cases o <;> rfl

@[simp] theorem reqResult_setRequested (h : Handle R F) (b : Bool) (o : Outcome) :
    (h.setRequested b o).reqResult = h.reqResult := by
  cases o <;> rfl

/-- At most one outcome is requested. -/
def OneRequest (h : Handle R F) : Prop :=
  ∀ o o', h.requested o = true → h.requested o' = true → o = o'

/-- The body shared by the three setters. -/
def request (o : Outcome) (result : Option R) (h : Handle R F) : Handle R F :=
  if h.reqExecute && !h.reqSucceed && !h.reqAbort && !h.reqCancel then
    { h with reqResult := result }.setRequested true o
  else h

def setAborted (result : Option R) (h : Handle R F) : Handle R F := h.request .abort result

def setCanceled (result : Option R) (h : Handle R F) : Handle R F := h.request .cancel result

def setSucceeded (result : Option R) (h : Handle R F) : Handle R F := h.request .succeed result

def execute (h : Handle R F) : Handle R F :=
  if !h.reqSucceed && !h.reqAbort && !h.reqCancel then { h with reqExecute := true } else h

/-- `setFeedback` with the lock obtained. -/
def setFeedback (feedback : Option (FeedbackPtr F)) (h : Handle R F) : Handle R F :=
  { h with reqFeedback := feedback }

/-- `trySetFeedback` with the lock obtained; `content` is what the callback leaves. -/
def trySetFeedback (content : F) (h : Handle R F) : Handle R F :=
  { h with preallocatedFeedback := content, reqFeedback := some .preallocated }

def valid (h : Handle R F) : Bool := h.gh.isSome

def isExecuting (h : Handle R F) : Bool := h.gh.any fun g => g.status.isExecuting

def isCanceling (h : Handle R F) : Bool := h.gh.any fun g => g.status.isCanceling

def isActive (h : Handle R F) : Bool := h.gh.any fun g => g.status.isActive

/-- The message behind a feedback pointer. -/
def content (h : Handle R F) : FeedbackPtr F → F
  | .preallocated => h.preallocatedFeedback
  | .external content => content

/-! ## `runNonRealtime`

Each `if` of the `try` block is one branch; an error carries the state in which an `RCLErrorBase`
was thrown, which is the state after the `catch`. -/

def executeBranch (h : Handle R F) : Except (Handle R F) (Handle R F) :=
  if h.reqExecute && !h.isExecuting && h.isActive && !h.isCanceling then
    match h.gh.bind Goal.execute with
    | some g => .ok { h with gh := some g }
    -- `rcl_action` refuses the transition: the rest of the `try` block is skipped.
    | none => .error h
  else .ok h

/-- An outcome is applied with the stored result, and its request cleared, if `guard` holds. -/
def outcomeBranch (o : Outcome) (guard : Bool) (h : Handle R F) :
    Except (Handle R F) (Handle R F) :=
  if h.requested o && guard then
    match h.gh.bind (Goal.finish o h.reqResult) with
    | some g => .ok ({ h with gh := some g }.setRequested false o)
    -- A refused outcome stays requested.
    | none => .error h
  else .ok h

def abortBranch (h : Handle R F) : Except (Handle R F) (Handle R F) :=
  outcomeBranch .abort h.isExecuting h

def cancelBranch (h : Handle R F) : Except (Handle R F) (Handle R F) :=
  outcomeBranch .cancel h.isActive h

def succeedBranch (h : Handle R F) : Except (Handle R F) (Handle R F) :=
  outcomeBranch .succeed (!h.isCanceling) h

def feedbackBranch (h : Handle R F) : Handle R F :=
  match h.reqFeedback with
  | some feedback =>
      if h.isExecuting then { h with gh := h.gh.map (Goal.publishFeedback (h.content feedback)) }
      else h
  | none => h

def runBranches (h : Handle R F) : Except (Handle R F) (Handle R F) := do
  let h ← executeBranch h
  let h ← abortBranch h
  let h ← cancelBranch h
  let h ← succeedBranch h
  return feedbackBranch h

def runNonRealtime (h : Handle R F) : Handle R F :=
  if h.valid then
    match runBranches h with
    | .ok h | .error h => h
  else h

/-- A cancel request of the action client reaches the goal. -/
def clientCancel (h : Handle R F) : Handle R F :=
  { h with gh := h.gh.map fun g => { g with status := g.status.clientCancel } }

end Handle

/-- The calls made on a handle, and the action client's request. -/
inductive Op (R F : Type)
  | execute
  | setAborted (result : Option R)
  | setCanceled (result : Option R)
  | setSucceeded (result : Option R)
  | setFeedback (feedback : Option (FeedbackPtr F))
  | trySetFeedback (content : F)
  | runNonRealtime
  | clientCancel

variable {R F : Type}

def Op.apply : Op R F → Handle R F → Handle R F
  | .execute => Handle.execute
  | .setAborted result => Handle.setAborted result
  | .setCanceled result => Handle.setCanceled result
  | .setSucceeded result => Handle.setSucceeded result
  | .setFeedback feedback => Handle.setFeedback feedback
  | .trySetFeedback content => Handle.trySetFeedback content
  | .runNonRealtime => Handle.runNonRealtime
  | .clientCancel => Handle.clientCancel

/-- All sequences of calls on a fresh handle, whatever its goal has been through before. -/
def calls (R F : Type) : System Unit (Op R F) (Handle R F) where
  start h := ∃ gh content, h = Handle.create gh content
  step _ op h := some (op.apply h)

end GoalHandle
