import Mathlib.Logic.Function.Basic
import RealtimeTools.Interleaving.RobustMutex
import RealtimeTools.Interleaving.System

/-!
# prio_inherit_mutex and prio_inherit_recursive_mutex

`detail::mutex` of `mutex.hpp`, called by any number of threads over one robust mutex.  Every call of
a `pthread` function is one step and the test of its code another, and a thread may die before any of
its steps.
-/

open Interleaving

namespace RealtimeMutex

inductive Call
  | lock
  | tryLock
  | unlock
  deriving DecidableEq

/-- A text, followed by what `std::strerror` says about `code` if there is one. -/
structure Message where
  text : String
  code : Option Errno := none
  deriving DecidableEq

inductive Exception
  | systemError (code : Errno) (what : String)
  | runtimeError (what : Message)
  deriving DecidableEq

inductive Result
  | normal
  | value (b : Bool)
  | thrown (e : Exception)
  deriving DecidableEq

/-- Program points of a call; `consistent` is that of `pthread_mutex_consistent`. -/
inductive CallPc
  | pthread
  | test (res : Errno)
  | consistent
  | testConsistent (res : Errno)
  deriving DecidableEq

inductive Pc
  | idle
  | inside (call : Call) (pc : CallPc)
  | dead
  deriving DecidableEq

inductive Event (κ : Type)
  | called (k : κ) (call : Call)
  | returned (k : κ) (call : Call) (result : Result)
  /-- A `pthread` function called by `k` has changed the mutex. -/
  | changed (k : κ) (mutex : RobustMutex κ)
  /-- A line on `std::cerr`. -/
  | reported (k : κ) (line : Message)
  | died (k : κ)
  deriving DecidableEq

structure State (κ : Type) where
  mutex : RobustMutex κ
  pc : κ → Pc
  history : List (Event κ)

/-- What the environment decides at a step: the next call of a thread, and whether it dies. -/
structure Oracle where
  call : Call := .lock
  dies : Bool := false

variable {κ : Type}

def State.record (s : State κ) (e : Event κ) : State κ :=
  { s with history := s.history ++ [e] }

def initial : State κ where
  mutex := .free
  pc := fun _ => .idle
  history := []

section Steps

variable [DecidableEq κ]

namespace State

def goto (s : State κ) (k : κ) (pc : Pc) : State κ :=
  { s with pc := Function.update s.pc k pc }

/-- A `pthread` function returns and leaves the mutex as `mutex`. -/
def pthread (s : State κ) (k : κ) (pc : Pc) (mutex : RobustMutex κ) : State κ :=
  if mutex = s.mutex then s.goto k pc
  else ({ s with mutex }.goto k pc).record (.changed k mutex)

def leave (s : State κ) (k : κ) (call : Call) (result : Result) : State κ :=
  (s.goto k .idle).record (.returned k call result)

def die (s : State κ) (k : κ) : State κ :=
  ({ s with mutex := s.mutex.die k }.goto k .dead).record (.died k)

/-- The test of the code of `pthread_mutex_consistent`. -/
def testConsistent (s : State κ) (k : κ) (call : Call) (result : Result) (res : Errno) : State κ :=
  if res ≠ .success then
    s.leave k call (.thrown (.runtimeError ⟨"Failed to make mutex consistent : ", some res⟩))
  else
    (s.record (.reported k
      ⟨"Mutex owner died, but the mutex is consistent now. This shouldn't happen!", none⟩)).leave
      k call result

end State

def lock (attr : MutexAttr) (s : State κ) (k : κ) : CallPc → Option (State κ)
  | .pthread =>
      (s.mutex.lock attr k).map fun r => s.pthread k (.inside .lock (.test r.1)) r.2
  | .test res =>
      some (match res with
        | .success => s.leave k .lock .normal
        | .EOWNERDEAD => s.goto k (.inside .lock .consistent)
        | .EDEADLK => s.leave k .lock (.thrown (.systemError .EDEADLK "Deadlock detected"))
        | res => s.leave k .lock (.thrown (.runtimeError ⟨"Failed to lock mutex : ", some res⟩)))
  | .consistent =>
      let r := s.mutex.makeConsistent k
      some (s.pthread k (.inside .lock (.testConsistent r.1)) r.2)
  | .testConsistent res => some (s.testConsistent k .lock .normal res)

def tryLock (attr : MutexAttr) (s : State κ) (k : κ) : CallPc → Option (State κ)
  | .pthread =>
      let r := s.mutex.tryLock attr k
      some (s.pthread k (.inside .tryLock (.test r.1)) r.2)
  | .test res =>
      some (match res with
        | .success => s.leave k .tryLock (.value true)
        | .EBUSY => s.leave k .tryLock (.value false)
        | .EOWNERDEAD => s.goto k (.inside .tryLock .consistent)
        | .EDEADLK => s.leave k .tryLock (.thrown (.systemError .EDEADLK "Deadlock detected"))
        | res =>
            s.leave k .tryLock (.thrown (.runtimeError ⟨"Failed to try lock mutex : ", some res⟩)))
  | .consistent =>
      let r := s.mutex.makeConsistent k
      some (s.pthread k (.inside .tryLock (.testConsistent r.1)) r.2)
  | .testConsistent res => some (s.testConsistent k .tryLock (.value true) res)

/-- `unlock` does not throw: it reports a failure. -/
def unlock (s : State κ) (k : κ) : CallPc → Option (State κ)
  | .pthread =>
      let r := s.mutex.unlock k
      some (s.pthread k (.inside .unlock (.test r.1)) r.2)
  | .test res =>
      some (if res ≠ .success then
        (s.record (.reported k ⟨"Failed to unlock mutex : ", some res⟩)).leave k .unlock .normal
      else s.leave k .unlock .normal)
  | .consistent | .testConsistent _ => none

def step (attr : MutexAttr) (k : κ) (oracle : Oracle) (s : State κ) : Option (State κ) :=
  match s.pc k with
  | .dead => none
  | .idle =>
      if oracle.dies then some (s.die k)
      else some ((s.goto k (.inside oracle.call .pthread)).record (.called k oracle.call))
  | .inside call pc =>
      if oracle.dies then some (s.die k)
      else
        match call with
        | .lock => lock attr s k pc
        | .tryLock => tryLock attr s k pc
        | .unlock => unlock s k pc

/-- All runs of any threads over a mutex that has just been constructed. -/
def mutex (κ : Type) [DecidableEq κ] (attr : MutexAttr) : System κ Oracle (State κ) where
  start s := s = initial
  step := step attr

/-- `maxCount` matters to recursive mutexes only. -/
def prioInheritMutex (κ : Type) [DecidableEq κ] (maxCount : ℕ) : System κ Oracle (State κ) :=
  mutex κ ⟨.errorcheck, maxCount⟩

def prioInheritRecursiveMutex (κ : Type) [DecidableEq κ] (maxCount : ℕ) :
    System κ Oracle (State κ) :=
  mutex κ ⟨.recursive, maxCount⟩

end Steps

end RealtimeMutex
