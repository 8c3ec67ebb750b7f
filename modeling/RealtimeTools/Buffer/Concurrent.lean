import RealtimeTools.Interleaving.Copying
import RealtimeTools.Interleaving.Monitor
import RealtimeTools.Interleaving.System

/-!
# RealtimeBuffer and its threads

`realtime_buffer.hpp` as threads over the members of the class: the realtime thread calls
`readFromRT` and reads words through the pointer it got, any number of other threads call
`writeFromNonRT` and `readFromNonRT`.  A write copies word by word.  The pointers and the flag are
plain members; the statements that read or write them under the mutex are one step.
-/

open Interleaving

namespace RealtimeBuffer.Concurrent

/-- The two objects that the constructor allocates. -/
inductive Slot
  | first
  | second
  deriving DecidableEq, Repr

/-- Program points of the realtime thread; between two calls of `readFromRT` it uses the pointer. -/
inductive ReaderPc
  | idle
  | tryLock
  | testNew (ownsLock : Bool)
  | returnPointer (ownsLock : Bool)
  /-- `guard` goes out of scope. -/
  | unlock
  deriving DecidableEq

/-- Program points of `writeFromNonRT`. -/
inductive WritePc (ι : Type)
  | tryLock
  | evaluate
  | copy (target : Slot) (copied : Finset ι)
  | storeNew
  | unlock
  deriving DecidableEq

/-- Program points of `readFromNonRT`. -/
inductive ReadPc
  | lock
  | testNew
  | unlock (pointer : Slot)
  deriving DecidableEq

inductive Call (ι W : Type)
  | write (data : ι → W)
  | read

inductive ClientPc (ι W : Type)
  | idle
  | write (data : ι → W) (pc : WritePc ι)
  | read (pc : ReadPc)

inductive Event (κ ι W : Type)
  | called (k : κ) (call : Call ι W)
  /-- A call of `writeFromNonRT` gives the mutex back. -/
  | wrote (k : κ) (data : ι → W)
  | readNonRT (k : κ) (pointer : Slot)
  /-- A call of `readFromRT` returns. -/
  | readRT (pointer : Slot)
  /-- The realtime thread reads a word through its pointer. -/
  | saw (i : ι) (word : W)

structure State (κ ι W : Type) where
  slots : Slot → ι → W
  realtimeData : Slot
  nonRealtimeData : Slot
  newDataAvailable : Bool
  mutex : Mutex (Thread κ)
  /-- What the last `readFromRT` returned. -/
  pointer : Option Slot
  reader : ReaderPc
  client : κ → ClientPc ι W
  history : List (Event κ ι W)

/-- What the environment decides at a step: the next call, whether `try_lock` fails although the
mutex is free, and which word is copied or looked at next, if any. -/
structure Oracle (ι W : Type) where
  call : Call ι W := .read
  spuriousFail : Bool := false
  word : Option ι := none

variable {κ ι W : Type}

namespace State

def goto [DecidableEq κ] (s : State κ ι W) (k : κ) (pc : ClientPc ι W) : State κ ι W :=
  { s with client := Function.update s.client k pc }

def record (s : State κ ι W) (e : Event κ ι W) : State κ ι W :=
  { s with history := s.history ++ [e] }

end State

/-- Both constructors without a source: the two objects hold the same value. -/
def initial (data : ι → W) : State κ ι W where
  slots _ := data
  realtimeData := .second
  nonRealtimeData := .first
  newDataAvailable := false
  mutex := none
  pointer := none
  reader := .idle
  client _ := .idle
  history := []

/-- The realtime thread. -/
def readFromRT (s : State κ ι W) (o : Oracle ι W) : Option (State κ ι W) :=
  match s.reader with
  | .idle =>
      match o.word with
      | some i => s.pointer.map fun pointer => s.record (.saw i (s.slots pointer i))
      | none => some { s with reader := .tryLock }
  | .tryLock =>
      let (ownsLock, mutex) := s.mutex.tryLock .worker o.spuriousFail
      some { s with mutex, reader := .testNew ownsLock }
  | .testNew ownsLock =>
      if ownsLock && s.newDataAvailable then
        some { s with
          realtimeData := s.nonRealtimeData
          nonRealtimeData := s.realtimeData
          newDataAvailable := false
          reader := .returnPointer ownsLock }
      else some { s with reader := .returnPointer ownsLock }
  | .returnPointer ownsLock =>
      some ({ s with
        pointer := some s.realtimeData
        reader := if ownsLock then .unlock else .idle }.record (.readRT s.realtimeData))
  | .unlock => some { s with mutex := none, reader := .idle }

section Steps

variable [DecidableEq κ]

def writeFromNonRT [DecidableEq ι] [Fintype ι] (s : State κ ι W) (k : κ) (o : Oracle ι W)
    (data : ι → W) : WritePc ι → Option (State κ ι W)
  -- The loop sleeps and tries again.
  | .tryLock =>
      let (ownsLock, mutex) := s.mutex.tryLock (.client k) o.spuriousFail
      some ({ s with mutex }.goto k (.write data (if ownsLock then .evaluate else .tryLock)))
  -- Where `*non_realtime_data_` is is found out once.
  | .evaluate => some (s.goto k (.write data (.copy s.nonRealtimeData ∅)))
  | .copy target copied =>
      match o.word with
      | some i =>
          some ({ s with
            slots := Function.update s.slots target (copyWord data (s.slots target) i) }.goto k
              (.write data (.copy target (insert i copied))))
      | none => if copied = Finset.univ then some (s.goto k (.write data .storeNew)) else none
  | .storeNew => some ({ s with newDataAvailable := true }.goto k (.write data .unlock))
  | .unlock => some (({ s with mutex := none }.goto k .idle).record (.wrote k data))

def readFromNonRT (s : State κ ι W) (k : κ) : ReadPc → Option (State κ ι W)
  | .lock =>
      if s.mutex = none then some ({ s with mutex := some (.client k) }.goto k (.read .testNew))
      else none
  | .testNew =>
      some (s.goto k (.read (.unlock
        (if s.newDataAvailable then s.nonRealtimeData else s.realtimeData))))
  | .unlock pointer => some (({ s with mutex := none }.goto k .idle).record (.readNonRT k pointer))

def Call.entry : Call ι W → ClientPc ι W
  | .write data => .write data .tryLock
  | .read => .read .lock

variable [DecidableEq ι] [Fintype ι]

def clientStep (s : State κ ι W) (k : κ) (o : Oracle ι W) : Option (State κ ι W) :=
  match s.client k with
  | .idle => some ((s.goto k o.call.entry).record (.called k o.call))
  | .write data pc => writeFromNonRT s k o data pc
  | .read pc => readFromNonRT s k pc

/-- `Thread.worker` is the realtime thread. -/
def step : Thread κ → Oracle ι W → State κ ι W → Option (State κ ι W)
  | .worker, o, s => readFromRT s o
  | .client k, o, s => clientStep s k o

/-- All runs of a buffer that holds `data` at the start. -/
def buffer (κ : Type) [DecidableEq κ] (data : ι → W) :
    System (Thread κ) (Oracle ι W) (State κ ι W) where
  start s := s = initial data
  step := step

end Steps

/-! ## What the realtime thread sees -/

@[simp] def Event.wrote? : Event κ ι W → Option (ι → W)
  | .wrote _ data => some data
  | _ => none

@[simp] def Event.isReadRT : Event κ ι W → Bool
  | .readRT _ => true
  | _ => false

/-- The arguments of the completed writes, in order. -/
def writes (history : List (Event κ ι W)) : List (ι → W) := history.filterMap Event.wrote?

/-- The number of calls of `readFromRT` that have returned. -/
def reads (history : List (Event κ ι W)) : Nat := history.countP Event.isReadRT

/-- What the `n`-th completed write has written; the initial value comes first. -/
def version (data : ι → W) (history : List (Event κ ι W)) (n : Nat) : Option (ι → W) :=
  (data :: writes history)[n]?

@[simp] theorem writes_concat (history : List (Event κ ι W)) (e : Event κ ι W) :
    writes (history ++ [e]) = writes history ++ e.wrote?.toList := by
  cases e <;> simp [writes]

@[simp] theorem reads_concat (history : List (Event κ ι W)) (e : Event κ ι W) :
    reads (history ++ [e]) = reads history + if e.isReadRT then 1 else 0 := by
  cases e <;> simp [reads]

end RealtimeBuffer.Concurrent
