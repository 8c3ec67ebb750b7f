import RealtimeTools.Interleaving.Copying
import RealtimeTools.Interleaving.Monitor
import RealtimeTools.Interleaving.System

/-!
# RealtimeThreadSafeBox

`realtime_thread_safe_box.hpp` as threads over any number of boxes, each a value and a mutex.  Values
are copied word by word, and callbacks read and write words one at a time.  The entry points differ
in how they lock and in what they do under the lock; assignments take two locks, the source's first.
-/

open Interleaving

namespace RealtimeThreadSafeBox

/-- What an entry point does with the value while it owns the mutex. -/
inductive Access (ι W : Type)
  /-- `value_ = value`. -/
  | store (value : ι → W)
  /-- `func(value_)`, with a `T &`. -/
  | modify
  /-- A copy of `value_`. -/
  | load
  /-- `func(value_)`, with a `const T &`. -/
  | inspect
  /-- `std::move(value_)`. -/
  | moveOut

inductive Call (β ι W : Type)
  /-- A call that locks box `b` only, with `try_lock` or blocking. -/
  | access (b : β) (tries : Bool) (a : Access ι W)
  /-- `target = source`. -/
  | assign (target source : β) (moving : Bool)

/-! ### The entry points -/

section EntryPoints

variable {β ι W : Type}

/-- `set(value)`, `operator=(value)`. -/
def set (b : β) (value : ι → W) : Call β ι W := .access b false (.store value)

/-- `set(func)`. -/
def setFunc (b : β) : Call β ι W := .access b false .modify

def trySet (b : β) (value : ι → W) : Call β ι W := .access b true (.store value)

def trySetFunc (b : β) : Call β ι W := .access b true .modify

/-- `get()` and `get(in)`. -/
def get (b : β) : Call β ι W := .access b false .load

def getFunc (b : β) : Call β ι W := .access b false .inspect

def tryGet (b : β) : Call β ι W := .access b true .load

def tryGetFunc (b : β) : Call β ι W := .access b true .inspect

/-- The copy constructor; nobody else knows the new box yet. -/
def copyConstruct (source : β) : Call β ι W := .access source false .load

def moveConstruct (source : β) : Call β ι W := .access source false .moveOut

def copyAssign (target source : β) : Call β ι W := .assign target source false

def moveAssign (target source : β) : Call β ι W := .assign target source true

end EntryPoints

/-! ### Program points -/

/-- Program points of a call that locks one box; `out` is the copy it makes. -/
inductive AccessPc (ι W : Type)
  | lock
  | copy (copied : Finset ι) (out : ι → W)
  | invoke
  | callback
  | unlock (out : ι → W)
  | finish (out : ι → W)

/-- Program points of an assignment. -/
inductive AssignPc (ι W : Type)
  | testSelf
  | lockSource
  | lockTarget
  | copy (copied : Finset ι)
  /-- The locks are released in the reverse order. -/
  | unlockTarget
  | unlockSource (stored : ι → W)
  | finish

inductive ClientPc (β ι W : Type)
  | idle
  | access (b : β) (tries : Bool) (a : Access ι W) (pc : AccessPc ι W)
  | assign (target source : β) (moving : Bool) (pc : AssignPc ι W)

inductive Result (ι W : Type)
  | unit
  | bool (value : Bool)
  | value (value : ι → W)
  | nullopt

/-- What an operation on a box has done when it gives the mutex back. -/
inductive Effect (ι W : Type)
  | read (value : ι → W)
  | wrote (value : ι → W)
  | inspected

inductive Event (κ β ι W : Type)
  | called (k : κ) (call : Call β ι W)
  | acquired (k : κ) (b : β)
  /-- A callback is invoked on the value. -/
  | invoked (k : κ) (b : β) (argument : ι → W)
  /-- The callback reads a word of its argument. -/
  | looked (k : κ) (b : β) (i : ι) (word : W)
  /-- The callback writes a word of its argument. -/
  | put (k : κ) (b : β) (i : ι) (word : W)
  | released (k : κ) (b : β) (effect : Effect ι W)
  | returned (k : κ) (result : Result ι W)

structure State (κ β ι W : Type) where
  value : β → ι → W
  lock : β → Mutex κ
  client : κ → ClientPc β ι W
  history : List (Event κ β ι W)

/-- What the environment decides at a step: the next call, whether `try_lock` fails although the
mutex is free, which word a copy or a callback comes to next (`none`: it is done), and whether a
callback writes it.  `content` is what it writes, or what a move leaves behind. -/
structure Oracle (β ι W : Type) where
  call : Call β ι W
  spuriousFail : Bool := false
  word : Option ι := none
  put : Bool := false
  content : W

variable {κ β ι W : Type}

namespace State

def goto [DecidableEq κ] (s : State κ β ι W) (k : κ) (pc : ClientPc β ι W) : State κ β ι W :=
  { s with client := Function.update s.client k pc }

def record (s : State κ β ι W) (e : Event κ β ι W) : State κ β ι W :=
  { s with history := s.history ++ [e] }

def setLock [DecidableEq β] (s : State κ β ι W) (b : β) (mutex : Mutex κ) : State κ β ι W :=
  { s with lock := Function.update s.lock b mutex }

def setValue [DecidableEq β] (s : State κ β ι W) (b : β) (value : ι → W) : State κ β ι W :=
  { s with value := Function.update s.value b value }

variable {s : State κ β ι W} {k : κ} {b : β} {pc : ClientPc β ι W} {e : Event κ β ι W}
  {mutex : Mutex κ}

@[simp] theorem client_record : (s.record e).client = s.client := rfl
@[simp] theorem value_record : (s.record e).value = s.value := rfl
@[simp] theorem lock_record : (s.record e).lock = s.lock := rfl
@[simp] theorem history_record : (s.record e).history = s.history ++ [e] := rfl

section Goto

variable [DecidableEq κ]

@[simp] theorem client_goto : (s.goto k pc).client = Function.update s.client k pc := rfl
@[simp] theorem value_goto : (s.goto k pc).value = s.value := rfl
@[simp] theorem lock_goto : (s.goto k pc).lock = s.lock := rfl
@[simp] theorem history_goto : (s.goto k pc).history = s.history := rfl

end Goto

section SetLock

variable [DecidableEq β]

@[simp] theorem client_setLock : (s.setLock b mutex).client = s.client := rfl
@[simp] theorem value_setLock : (s.setLock b mutex).value = s.value := rfl
@[simp] theorem lock_setLock : (s.setLock b mutex).lock = Function.update s.lock b mutex := rfl
@[simp] theorem history_setLock : (s.setLock b mutex).history = s.history := rfl

end SetLock

end State

/-! ## The threads -/

/-- The result of a call whose `try_lock` fails. -/
def Access.failed : Access ι W → Result ι W
  | .load | .moveOut => .nullopt
  | .store _ | .modify | .inspect => .bool false

def Access.succeeded (a : Access ι W) (tries : Bool) (out : ι → W) : Result ι W :=
  match a with
  | .load | .moveOut => .value out
  | .store _ | .modify | .inspect => if tries then .bool true else .unit

/-- The first program point under the lock. -/
def Access.body [Inhabited W] : Access ι W → AccessPc ι W
  | .store _ | .load | .moveOut => .copy ∅ default
  | .modify | .inspect => .invoke

def Access.effect (a : Access ι W) (value out : ι → W) : Effect ι W :=
  match a with
  | .store value => .wrote value
  | .load => .read out
  | .inspect => .inspected
  | .modify | .moveOut => .wrote value

section Steps

variable [DecidableEq κ] [DecidableEq β] [DecidableEq ι] [Inhabited W]

/-- One word of a copy: the value of the box and the copy after it. -/
def Access.copyWord (a : Access ι W) (value out : ι → W) (i : ι) (content : W) :
    (ι → W) × (ι → W) :=
  match a with
  | .store v => (Interleaving.copyWord v value i, out)
  | .load => (value, Interleaving.copyWord value out i)
  | .moveOut => (Function.update value i content, Interleaving.copyWord value out i)
  | .modify | .inspect => (value, out)

def accessStep [Fintype ι] (s : State κ β ι W) (k : κ) (o : Oracle β ι W) (b : β) (tries : Bool)
    (a : Access ι W) : AccessPc ι W → Option (State κ β ι W)
  | .lock =>
      if s.lock b = none ∧ (tries && o.spuriousFail) = false then
        some (((s.setLock b (some k)).goto k (.access b tries a a.body)).record (.acquired k b))
      else if tries then some ((s.goto k .idle).record (.returned k a.failed))
      else none
  | .copy copied out =>
      match o.word with
      | some i =>
          let (value, out) := a.copyWord (s.value b) out i o.content
          some ((s.setValue b value).goto k (.access b tries a (.copy (insert i copied) out)))
      | none =>
          if copied = Finset.univ then some (s.goto k (.access b tries a (.unlock out))) else none
  | .invoke => some ((s.goto k (.access b tries a .callback)).record (.invoked k b (s.value b)))
  | .callback =>
      match o.word with
      | some i =>
          match a, o.put with
          | .modify, true =>
              some ((s.setValue b (Function.update (s.value b) i o.content)).record
                (.put k b i o.content))
          | _, _ => some (s.record (.looked k b i (s.value b i)))
      | none => some (s.goto k (.access b tries a (.unlock default)))
  | .unlock out =>
      some (((s.setLock b none).goto k (.access b tries a (.finish out))).record
        (.released k b (a.effect (s.value b) out)))
  | .finish out => some ((s.goto k .idle).record (.returned k (a.succeeded tries out)))

omit [Inhabited W] in
def assignStep [Fintype ι] (s : State κ β ι W) (k : κ) (o : Oracle β ι W) (target source : β)
    (moving : Bool) : AssignPc ι W → Option (State κ β ι W)
  | .testSelf =>
      some (s.goto k (.assign target source moving
        (if source = target then .finish else .lockSource)))
  | .lockSource =>
      if s.lock source = none then
        some (((s.setLock source (some k)).goto k
          (.assign target source moving .lockTarget)).record (.acquired k source))
      else none
  | .lockTarget =>
      if s.lock target = none then
        some (((s.setLock target (some k)).goto k
          (.assign target source moving (.copy ∅))).record (.acquired k target))
      else none
  | .copy copied =>
      match o.word with
      | some i =>
          let moved := if moving then Function.update (s.value source) i o.content
            else s.value source
          some (((s.setValue target (copyWord (s.value source) (s.value target) i)).setValue source
            moved).goto k (.assign target source moving (.copy (insert i copied))))
      | none =>
          if copied = Finset.univ then some (s.goto k (.assign target source moving .unlockTarget))
          else none
  | .unlockTarget =>
      some (((s.setLock target none).goto k
        (.assign target source moving (.unlockSource (s.value target)))).record
          (.released k target (.wrote (s.value target))))
  | .unlockSource stored =>
      some (((s.setLock source none).goto k (.assign target source moving .finish)).record
        (.released k source (if moving then .wrote (s.value source) else .read stored)))
  | .finish => some ((s.goto k .idle).record (.returned k .unit))

/-- The first program point of a call. -/
def Call.entry : Call β ι W → ClientPc β ι W
  | .access b tries a => .access b tries a .lock
  | .assign target source moving => .assign target source moving .testSelf

def step [Fintype ι] (k : κ) (o : Oracle β ι W) (s : State κ β ι W) : Option (State κ β ι W) :=
  match s.client k with
  | .idle => some ((s.goto k o.call.entry).record (.called k o.call))
  | .access b tries a pc => accessStep s k o b tries a pc
  | .assign target source moving pc => assignStep s k o target source moving pc

omit [DecidableEq κ] [DecidableEq β] [DecidableEq ι] [Inhabited W] in
/-- Boxes that hold `init`, and nobody in a call. -/
def initial (init : β → ι → W) : State κ β ι W where
  value := init
  lock _ := none
  client _ := .idle
  history := []

/-- All runs of threads `κ` over boxes that hold `init` at the start. -/
def boxes (κ : Type) [DecidableEq κ] [Fintype ι] (init : β → ι → W) :
    System κ (Oracle β ι W) (State κ β ι W) where
  start s := s = initial init
  step := step

end Steps

end RealtimeThreadSafeBox
