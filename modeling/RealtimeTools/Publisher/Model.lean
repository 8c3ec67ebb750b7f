import RealtimeTools.Interleaving.System
import RealtimeTools.Interleaving.Monitor

/-!
# RealtimePublisher

`realtime_publisher.hpp` as threads over the members of the class: `publishingLoop` runs in the
background thread, `try_publish`, `can_publish` and `stop` in any number of client threads.  Every
atomic load or store, lock, unlock, wait and notification is one step.  `history` is not part of the
class; it records what an observer of the publisher sees.
-/

open Interleaving

namespace RealtimePublisher

/-- `enum class State`, the type of `turn_`. -/
inductive Turn
  | realtime
  | nonRealtime
  | loopNotStarted
  deriving DecidableEq, Repr

/-- Program points of `publishingLoop`. -/
inductive LoopPc (Msg : Type)
  | storeRunning
  | testKeepRunning
  | storeRealtime
  /-- Takes `msg_mutex_`, at the start of a round and again after every wake-up. -/
  | lock
  | testTurn
  | testStop
  | block
  | blocked
  | copy
  | unlock (outgoing : Msg)
  | testPublish (outgoing : Msg)
  | publish (outgoing : Msg)
  | storeStopped
  | finished
  deriving DecidableEq

/-- Program points of `try_publish`. -/
inductive TryPublishPc
  | tryLock
  | testTurn (ownsLock : Bool)
  | storeMsg
  | storeTurn
  | unlock
  | notify
  /-- `lock` goes out of scope on the way to `return false`. -/
  | giveUp
  deriving DecidableEq

/-- Program points of `can_publish`. -/
inductive CanPublishPc
  | tryLock
  | testTurn (ownsLock : Bool)
  | unlock (result : Bool)
  deriving DecidableEq

/-- Program points of `stop`. -/
inductive StopPc
  | lock
  | store
  | unlock
  | notify
  deriving DecidableEq

/-- The public calls of a client. -/
inductive Call (Msg : Type)
  | tryPublish (msg : Msg)
  | canPublish
  | stop
  deriving DecidableEq

inductive ClientPc (Msg : Type)
  | idle
  | tryPublish (msg : Msg) (pc : TryPublishPc)
  | canPublish (pc : CanPublishPc)
  | stop (pc : StopPc)
  deriving DecidableEq

inductive Event (κ Msg : Type)
  | called (k : κ) (call : Call Msg)
  /-- A call returns; `stop` returns no value. -/
  | returned (k : κ) (result : Option Bool)
  | accepted (k : κ) (msg : Msg)
  | published (msg : Msg)
  | loopLeft

/-- The members of the class, where each thread is, and the history. -/
structure State (κ Msg : Type) where
  isRunning : Bool
  keepRunning : Bool
  msg : Msg
  msgMutex : Mutex (Thread κ)
  updatedCond : CondVar (Thread κ)
  turn : Turn
  loop : LoopPc Msg
  client : κ → ClientPc Msg
  constructed : Bool
  history : List (Event κ Msg)

/-- What the environment decides at a step: the next call of a client, whether `try_to_lock` fails
although the mutex is free, and the thread a notification reaches. -/
structure Oracle (κ Msg : Type) where
  call : Call Msg := .canPublish
  spuriousFail : Bool := false
  woken : Thread κ := .worker

variable {κ Msg : Type}

namespace State

def goto [DecidableEq κ] (s : State κ Msg) (k : κ) (pc : ClientPc Msg) : State κ Msg :=
  { s with client := Function.update s.client k pc }

def record (s : State κ Msg) (e : Event κ Msg) : State κ Msg :=
  { s with history := s.history ++ [e] }

end State

/-- `initialize` up to and including the start of `thread_`. -/
def initial [Inhabited Msg] : State κ Msg where
  isRunning := false
  keepRunning := true
  msg := default
  msgMutex := none
  updatedCond := ∅
  turn := .loopNotStarted
  loop := .storeRunning
  client := fun _ => .idle
  constructed := false
  history := []

/-- The polling loop of `initialize`: the constructor returns once `turn_` has been stored. -/
def initializeWait (s : State κ Msg) : Option (State κ Msg) :=
  if s.turn = .loopNotStarted then none else some { s with constructed := true }

section Steps

variable [DecidableEq κ]

def publishingLoop (s : State κ Msg) : Option (State κ Msg) :=
  match s.loop with
  | .storeRunning => some { s with isRunning := true, loop := .testKeepRunning }
  | .testKeepRunning =>
      if s.keepRunning then some { s with loop := .storeRealtime }
      else some ({ s with loop := .storeStopped }.record .loopLeft)
  -- Stored without holding `msg_mutex_`.
  | .storeRealtime => some { s with turn := .realtime, loop := .lock }
  | .lock =>
      if s.msgMutex = none then some { s with msgMutex := some .worker, loop := .testTurn } else none
  | .testTurn => some { s with loop := if s.turn = .nonRealtime then .copy else .testStop }
  -- The second half of the predicate; a stop gets past the wait as well.
  | .testStop => some { s with loop := if s.keepRunning then .block else .copy }
  | .block =>
      some { s with
        msgMutex := none, updatedCond := s.updatedCond.wait .worker, loop := .blocked }
  -- Notified or not, the predicate is tested again under the mutex.
  | .blocked => some { s with updatedCond := s.updatedCond.wake .worker, loop := .lock }
  | .copy => some { s with loop := .unlock s.msg }
  | .unlock outgoing => some { s with msgMutex := none, loop := .testPublish outgoing }
  | .testPublish outgoing =>
      some { s with loop := if s.keepRunning then .publish outgoing else .testKeepRunning }
  | .publish outgoing => some ({ s with loop := .testKeepRunning }.record (.published outgoing))
  | .storeStopped => some { s with isRunning := false, loop := .finished }
  | .finished => none

/-- `can_publish(lock)`, one load of `turn_`. -/
def canPublishLocked (s : State κ Msg) (ownsLock : Bool) : Bool :=
  decide (s.turn = .realtime) && ownsLock

def tryPublish (s : State κ Msg) (k : κ) (o : Oracle κ Msg) (msg : Msg) :
    TryPublishPc → Option (State κ Msg)
  | .tryLock =>
      let (ownsLock, msgMutex) := s.msgMutex.tryLock (.client k) o.spuriousFail
      some ({ s with msgMutex }.goto k (.tryPublish msg (.testTurn ownsLock)))
  -- `turn_` is loaded whether or not the mutex is owned.
  | .testTurn ownsLock =>
      if canPublishLocked s ownsLock then some (s.goto k (.tryPublish msg .storeMsg))
      else if ownsLock then some (s.goto k (.tryPublish msg .giveUp))
      else some ((s.goto k .idle).record (.returned k (some false)))
  -- From here on the call returns true.
  | .storeMsg =>
      some (({ s with msg := msg }.goto k (.tryPublish msg .storeTurn)).record (.accepted k msg))
  | .storeTurn => some ({ s with turn := .nonRealtime }.goto k (.tryPublish msg .unlock))
  | .unlock => some ({ s with msgMutex := none }.goto k (.tryPublish msg .notify))
  | .notify =>
      (s.updatedCond.notifyOne o.woken).map fun cond =>
        ({ s with updatedCond := cond }.goto k .idle).record (.returned k (some true))
  | .giveUp => some (({ s with msgMutex := none }.goto k .idle).record (.returned k (some false)))

def canPublish (s : State κ Msg) (k : κ) (o : Oracle κ Msg) : CanPublishPc → Option (State κ Msg)
  | .tryLock =>
      let (ownsLock, msgMutex) := s.msgMutex.tryLock (.client k) o.spuriousFail
      some ({ s with msgMutex }.goto k (.canPublish (.testTurn ownsLock)))
  | .testTurn ownsLock =>
      if ownsLock then some (s.goto k (.canPublish (.unlock (canPublishLocked s ownsLock))))
      else some ((s.goto k .idle).record (.returned k (some (canPublishLocked s ownsLock))))
  | .unlock result => some (({ s with msgMutex := none }.goto k .idle).record (.returned k (some result)))

def stop (s : State κ Msg) (k : κ) (o : Oracle κ Msg) : StopPc → Option (State κ Msg)
  | .lock =>
      if s.msgMutex = none then
        some ({ s with msgMutex := some (.client k) }.goto k (.stop .store))
      else none
  | .store => some ({ s with keepRunning := false }.goto k (.stop .unlock))
  | .unlock => some ({ s with msgMutex := none }.goto k (.stop .notify))
  | .notify =>
      (s.updatedCond.notifyOne o.woken).map fun cond =>
        ({ s with updatedCond := cond }.goto k .idle).record (.returned k none)

/-- The first program point of a call. -/
def Call.entry : Call Msg → ClientPc Msg
  | .tryPublish msg => .tryPublish msg .tryLock
  | .canPublish => .canPublish .tryLock
  | .stop => .stop .lock

/-- A client waits for the constructor, calls a method, or goes on with the one it is in. -/
def clientStep (s : State κ Msg) (k : κ) (o : Oracle κ Msg) : Option (State κ Msg) :=
  match s.client k with
  | .idle =>
      if s.constructed then some ((s.goto k o.call.entry).record (.called k o.call))
      else initializeWait s
  | .tryPublish msg pc => tryPublish s k o msg pc
  | .canPublish pc => canPublish s k o pc
  | .stop pc => stop s k o pc

def step : Thread κ → Oracle κ Msg → State κ Msg → Option (State κ Msg)
  | .worker, _, s => publishingLoop s
  | .client k, o, s => clientStep s k o

/-- All runs of a publisher, from the start of its thread on. -/
def publisher (κ Msg : Type) [DecidableEq κ] [Inhabited Msg] :
    System (Thread κ) (Oracle κ Msg) (State κ Msg) where
  start s := s = initial
  step := step

end Steps

/-! ## What the observer sees -/

/-- The message of an acceptance: `msg_` was stored by a call that returns true. -/
@[simp] def Event.acceptedMsg? : Event κ Msg → Option Msg
  | .accepted _ msg => some msg
  | _ => none

/-- The message of a call to `publisher_->publish`. -/
@[simp] def Event.publishedMsg? : Event κ Msg → Option Msg
  | .published msg => some msg
  | _ => none

/-- The client whose call an event belongs to. -/
def Event.client? : Event κ Msg → Option κ
  | .called k _ | .returned k _ | .accepted k _ => some k
  | .published _ | .loopLeft => none

namespace State

/-- Messages accepted by `try_publish`, in the order of the stores to `msg_`. -/
def accepted (s : State κ Msg) : List Msg := s.history.filterMap Event.acceptedMsg?

/-- Messages handed to `publisher_->publish`, in order. -/
def published (s : State κ Msg) : List Msg := s.history.filterMap Event.publishedMsg?

/-- The events of one client's calls, in order. -/
def eventsOf [DecidableEq κ] (k : κ) (s : State κ Msg) : List (Event κ Msg) :=
  s.history.filter fun e => e.client? = some k

@[simp] theorem accepted_record (s : State κ Msg) (e : Event κ Msg) :
    (s.record e).accepted = s.accepted ++ e.acceptedMsg?.toList := by
  cases e <;> simp [accepted, record]

@[simp] theorem published_record (s : State κ Msg) (e : Event κ Msg) :
    (s.record e).published = s.published ++ e.publishedMsg?.toList := by
  cases e <;> simp [published, record]

end State

end RealtimePublisher
