import RealtimeTools.Sequential.Heap
import RealtimeTools.Sequential.Object

/-!
# RealtimeBuffer

`realtime_buffer.hpp` with each call run to completion: two objects of `T` on the heap, which a
buffer owns through `realtime_data_` and `non_realtime_data_`.  A returned pointer is an address; the
caller reads through it.
-/

open Sequential

namespace RealtimeBuffer

/-- The members of the class, without the mutex: between two calls it is free. -/
structure Buffer where
  realtimeData : Nat
  nonRealtimeData : Nat
  newDataAvailable : Bool
  deriving DecidableEq

variable {ι T : Type}

/-! ## The calls -/

/-- `RealtimeBuffer()`. -/
def construct [Inhabited T] (heap : Heap T) : Heap T × Buffer :=
  let (heap, nonRealtimeData) := heap.new default
  let (heap, realtimeData) := heap.new default
  (heap, { realtimeData, nonRealtimeData, newDataAvailable := false })

/-- `RealtimeBuffer(data)`. -/
def constructFrom (heap : Heap T) (data : T) : Heap T × Buffer :=
  let (heap, nonRealtimeData) := heap.new data
  let (heap, realtimeData) := heap.new data
  (heap, { realtimeData, nonRealtimeData, newDataAvailable := false })

/-- `readFromRT()`, with or without the mutex. -/
def readFromRT (b : Buffer) (ownsLock : Bool) : Buffer × Nat :=
  let b : Buffer :=
    if ownsLock && b.newDataAvailable then
      { realtimeData := b.nonRealtimeData
        nonRealtimeData := b.realtimeData
        newDataAvailable := false }
    else b
  (b, b.realtimeData)

/-- `readFromNonRT()`. -/
def readFromNonRT (b : Buffer) : Nat :=
  if b.newDataAvailable then b.nonRealtimeData else b.realtimeData

/-- `writeFromNonRT(data)`, after the loop around `try_lock`. -/
def writeFromNonRT (heap : Heap T) (b : Buffer) (data : T) : Option (Heap T × Buffer) := do
  let heap ← heap.store b.nonRealtimeData data
  return (heap, { b with newDataAvailable := true })

/-- The copy constructor.  It leaves `new_data_available_` uninitialized until the write. -/
def copyConstruct [Inhabited T] (heap : Heap T) (source : Buffer) (uninitialized : Bool) :
    Option (Heap T × Buffer) := do
  let (heap, nonRealtimeData) := heap.new default
  let (heap, realtimeData) := heap.new default
  let data ← heap.load (readFromNonRT source)
  writeFromNonRT heap { realtimeData, nonRealtimeData, newDataAvailable := uninitialized } data

/-- `operator=`, after the test for self assignment. -/
def assign (heap : Heap T) (b source : Buffer) : Option (Heap T × Buffer) := do
  let data ← heap.load (readFromNonRT source)
  writeFromNonRT heap b data

/-- `initRT(data)`. -/
def initRT (heap : Heap T) (b : Buffer) (data : T) : Option (Heap T × Buffer) := do
  let heap ← heap.store b.nonRealtimeData data
  let heap ← heap.store b.realtimeData data
  return (heap, b)

/-- `reset()`; `new_data_available_` stays. -/
def reset [Inhabited T] (heap : Heap T) (b : Buffer) : Option (Heap T × Buffer) := do
  let heap ← heap.delete b.nonRealtimeData
  let heap ← heap.delete b.realtimeData
  let (heap, nonRealtimeData) := heap.new default
  let (heap, realtimeData) := heap.new default
  return (heap, { b with realtimeData, nonRealtimeData })

/-! ## Any number of buffers -/

/-- The heap, and the buffers that are alive, by name. -/
structure State (ι T : Type) where
  heap : Heap T
  buffers : ι → Option Buffer

inductive Op (ι T : Type)
  | construct (i : ι)
  | constructFrom (i : ι) (data : T)
  | copyConstruct (i source : ι) (uninitialized : Bool)
  | assign (i source : ι)
  | readFromRT (i : ι) (ownsLock : Bool)
  | readFromNonRT (i : ι)
  | writeFromNonRT (i : ι) (data : T)
  | initRT (i : ι) (data : T)
  | reset (i : ι)

namespace State

def empty : State ι T where
  heap := .empty
  buffers _ := none

variable [DecidableEq ι]

def set (s : State ι T) (i : ι) (r : Heap T × Buffer) : State ι T where
  heap := r.1
  buffers := Function.update s.buffers i (some r.2)

end State

/-- A constructor needs a new name, every other call a buffer that is alive.  The result is what the
returned pointer points to. -/
def call [Inhabited T] [DecidableEq ι] : Object (Op ι T) (State ι T) (Option T)
  | .construct i, s =>
      if s.buffers i = none then some (s.set i (construct s.heap), none) else none
  | .constructFrom i data, s =>
      if s.buffers i = none then some (s.set i (constructFrom s.heap data), none) else none
  | .copyConstruct i source uninitialized, s =>
      if s.buffers i = none then do
        let b ← s.buffers source
        let r ← copyConstruct s.heap b uninitialized
        return (s.set i r, none)
      else none
  | .assign i source, s => do
      let b ← s.buffers i
      let c ← s.buffers source
      if i = source then return (s, none)
      let r ← assign s.heap b c
      return (s.set i r, none)
  | .readFromRT i ownsLock, s => do
      let b ← s.buffers i
      let (b, pointer) := readFromRT b ownsLock
      let data ← s.heap.load pointer
      return (s.set i (s.heap, b), some data)
  | .readFromNonRT i, s => do
      let b ← s.buffers i
      let data ← s.heap.load (readFromNonRT b)
      return (s, some data)
  | .writeFromNonRT i data, s => do
      let b ← s.buffers i
      let r ← writeFromNonRT s.heap b data
      return (s.set i r, none)
  | .initRT i data, s => do
      let b ← s.buffers i
      let r ← initRT s.heap b data
      return (s.set i r, none)
  | .reset i, s => do
      let b ← s.buffers i
      let r ← reset s.heap b
      return (s.set i r, none)

end RealtimeBuffer
