import Mathlib.Logic.Function.Basic
import RealtimeTools.Interleaving.System
import RealtimeTools.Sequential.Fifo

/-!
# LockFreeMPMCQueue, step by step

`bounded_push` and `pop` of `lock_free_queue.hpp`, called by any number of threads, over a
`boost::lockfree::queue`: a bounded queue whose `bounded_push` and `pop` are atomic.  Every operation
on the container is one step, and the caller returns what it has found.
-/

open Interleaving Sequential

namespace LockFreeQueue

/-- Program points of `bounded_push`: `push(data)`, `data_queue_.pop(dummy)`, `push(data)` again. -/
inductive BoundedPushPc
  | push
  | discard
  | pushAgain
  deriving DecidableEq

inductive Call (α : Type)
  | boundedPush (data : α)
  | pop
  deriving DecidableEq

inductive Pc (α : Type)
  | idle
  | boundedPush (data : α) (pc : BoundedPushPc)
  | pop
  deriving DecidableEq

inductive Result (α : Type)
  | pushed (success : Bool)
  /-- `pop` returns false and leaves its argument alone at `none`. -/
  | popped (data : Option α)
  deriving DecidableEq

inductive Event (κ α : Type)
  | called (k : κ) (call : Call α)
  | returned (k : κ) (result : Result α)
  /-- `bounded_push` has put its element into the container. -/
  | appended (k : κ) (data : α)
  /-- `bounded_push` has thrown `dummy` away. -/
  | discarded (k : κ) (dummy : α)
  deriving DecidableEq

structure State (κ α : Type) (c : ℕ) where
  queue : Fifo α c
  pc : κ → Pc α
  history : List (Event κ α)

variable {κ α : Type} {c : ℕ}

namespace State

def goto [DecidableEq κ] (s : State κ α c) (k : κ) (pc : Pc α) : State κ α c :=
  { s with pc := Function.update s.pc k pc }

def record (s : State κ α c) (e : Event κ α) : State κ α c :=
  { s with history := s.history ++ [e] }

end State

def initial : State κ α c where
  queue := Fifo.empty
  pc := fun _ => .idle
  history := []

section Steps

variable [DecidableEq κ]

/-- The container has taken `data`. -/
def appended (s : State κ α c) (k : κ) (data : α) (queue : Fifo α c) : State κ α c :=
  (({ s with queue }.goto k .idle).record (.appended k data)).record (.returned k (.pushed true))

def boundedPush (s : State κ α c) (k : κ) (data : α) : BoundedPushPc → State κ α c
  | .push =>
      match s.queue.push data with
      | some queue => appended s k data queue
      | none => s.goto k (.boundedPush data .discard)
  -- Whether there was anything to pop is not tested.
  | .discard =>
      match s.queue.pop with
      | some (dummy, queue) =>
          ({ s with queue }.goto k (.boundedPush data .pushAgain)).record (.discarded k dummy)
      | none => s.goto k (.boundedPush data .pushAgain)
  | .pushAgain =>
      match s.queue.push data with
      | some queue => appended s k data queue
      | none => (s.goto k .idle).record (.returned k (.pushed false))

def pop (s : State κ α c) (k : κ) : State κ α c :=
  match s.queue.pop with
  | some (data, queue) =>
      ({ s with queue }.goto k .idle).record (.returned k (.popped (some data)))
  | none => (s.goto k .idle).record (.returned k (.popped none))

/-- The first program point of a call. -/
def Call.entry : Call α → Pc α
  | .boundedPush data => .boundedPush data .push
  | .pop => .pop

/-- The next step of `k`; an idle thread makes the call `call`. -/
def step (k : κ) (call : Call α) (s : State κ α c) : Option (State κ α c) :=
  match s.pc k with
  | .idle => some ((s.goto k call.entry).record (.called k call))
  | .boundedPush data pc => some (boundedPush s k data pc)
  | .pop => some (pop s k)

/-- All runs from construction, with a container of capacity `c`. -/
def queue (κ α : Type) [DecidableEq κ] (c : ℕ) : System κ (Call α) (State κ α c) where
  start s := s = initial
  step := step

/-! ## What a step does -/

inductive Step (k : κ) (s : State κ α c) : State κ α c → Prop
  | called (call : Call α) (hpc : s.pc k = .idle) :
      Step k s ((s.goto k call.entry).record (.called k call))
  | appended (data : α) (pc : BoundedPushPc) (queue : Fifo α c)
      (hpc : s.pc k = .boundedPush data pc) (hne : pc ≠ .discard)
      (hq : s.queue.push data = some queue) : Step k s (appended s k data queue)
  | full (data : α) (hpc : s.pc k = .boundedPush data .push) (hq : s.queue.IsFull) :
      Step k s (s.goto k (.boundedPush data .discard))
  | discarded (data dummy : α) (queue : Fifo α c) (hpc : s.pc k = .boundedPush data .discard)
      (hq : s.queue.items = dummy :: queue.items) :
      Step k s (({ s with queue }.goto k (.boundedPush data .pushAgain)).record
        (.discarded k dummy))
  | spared (data : α) (hpc : s.pc k = .boundedPush data .discard) (hq : s.queue.items = []) :
      Step k s (s.goto k (.boundedPush data .pushAgain))
  | refused (data : α) (hpc : s.pc k = .boundedPush data .pushAgain) (hq : s.queue.IsFull) :
      Step k s ((s.goto k .idle).record (.returned k (.pushed false)))
  | popped (data : α) (queue : Fifo α c) (hpc : s.pc k = .pop)
      (hq : s.queue.items = data :: queue.items) :
      Step k s (({ s with queue }.goto k .idle).record (.returned k (.popped (some data))))
  | foundEmpty (hpc : s.pc k = .pop) (hq : s.queue.items = []) :
      Step k s ((s.goto k .idle).record (.returned k (.popped none)))

theorem step_cases {s s' : State κ α c} {k : κ} {call : Call α} (h : step k call s = some s') :
    Step k s s' := by
  unfold step at h
  cases hpc : s.pc k with
  | idle =>
    simp only [hpc, Option.some.injEq] at h
    subst h
    exact .called call hpc
  | pop =>
    simp only [hpc, Option.some.injEq] at h
    subst h
    unfold pop
    split
    · rename_i data queue hq
      exact .popped data queue hpc (Fifo.pop_eq_some_iff.mp hq)
    · rename_i hq
      exact .foundEmpty hpc (Fifo.pop_eq_none_iff.mp hq)
  | boundedPush data pc =>
    simp only [hpc, Option.some.injEq] at h
    subst h
    unfold boundedPush
    cases pc with
    | push =>
      simp only
      split
      · rename_i queue hq
        exact .appended data .push queue hpc (by decide) hq
      · rename_i hq
        exact .full data hpc (Fifo.push_eq_none_iff.mp hq)
    | discard =>
      simp only
      split
      · rename_i dummy queue hq
        exact .discarded data dummy queue hpc (Fifo.pop_eq_some_iff.mp hq)
      · rename_i hq
        exact .spared data hpc (Fifo.pop_eq_none_iff.mp hq)
    | pushAgain =>
      simp only
      split
      · rename_i queue hq
        exact .appended data .pushAgain queue hpc (by decide) hq
      · rename_i hq
        exact .refused data hpc (Fifo.push_eq_none_iff.mp hq)

end Steps

end LockFreeQueue
