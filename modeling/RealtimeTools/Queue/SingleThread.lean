import RealtimeTools.Sequential.Fifo
import RealtimeTools.Sequential.Object

/-!
# LockFreeQueueBase, one caller

The calls of `lock_free_queue.hpp` run to completion, over a boost container that is a bounded queue.
The kind of the container decides at compile time which of its functions a call uses; every call
then does what it does to a list of the last elements.
-/

open Sequential

namespace LockFreeQueueBase

/-- The container: `boost::lockfree::spsc_queue`, or `boost::lockfree::queue`. -/
inductive Kind
  | spsc
  | mpmc
  deriving DecidableEq

/-- The calls.  An argument that a call may fill is given with the value it has before; `size` is
there for an `spsc_queue` only. -/
inductive Op (α : Type) (kind : Kind)
  | push (data : α)
  | pop (data : α)
  | boundedPush (data : α)
  | getLatest (data : α)
  | empty
  | size (h : kind = .spsc)

inductive Answer (α : Type)
  | bool (value : Bool)
  /-- The value returned, and the argument after the call. -/
  | filled (success : Bool) (data : α)
  | count (n : ℕ)
  deriving DecidableEq

variable {α : Type} {c : ℕ}

/-! ## The container -/

namespace Container

/-- `spsc_queue::push`. -/
def push (data : α) (q : Fifo α c) : Fifo α c × Bool :=
  match q.push data with
  | some q' => (q', true)
  | none => (q, false)

/-- `queue::bounded_push`: it does not allocate, so a full queue refuses the element. -/
def boundedPush (data : α) (q : Fifo α c) : Fifo α c × Bool := push data q

/-- `pop`, with its argument before and after. -/
def pop (data : α) (q : Fifo α c) : Fifo α c × Bool × α :=
  match q.pop with
  | some (x, q') => (q', true, x)
  | none => (q, false, data)

/-- `spsc_queue::read_available`. -/
def readAvailable (q : Fifo α c) : ℕ := q.items.length

/-- `queue::empty`. -/
def empty (q : Fifo α c) : Bool := q.items.isEmpty

end Container

/-! ## The class -/

def pop (data : α) (q : Fifo α c) : Fifo α c × Bool × α := Container.pop data q

def push (kind : Kind) (data : α) (q : Fifo α c) : Fifo α c × Bool :=
  match kind with
  | .spsc => Container.push data q
  | .mpmc => Container.boundedPush data q

/-- The dropped element goes to `dummy`; whether there was one is not tested. -/
def boundedPush (kind : Kind) (data : α) (q : Fifo α c) : Fifo α c × Bool :=
  let (q, pushed) := push kind data q
  if !pushed then
    let (q, _) := Container.pop data q
    push kind data q
  else (q, true)

/-- The visitor writes every element over the one before it. -/
def getLatest (data : α) (q : Fifo α c) : Fifo α c × Bool × α :=
  let (data, consumed, q) := q.consumeAll (fun _ d => d) data
  (q, decide (consumed > 0), data)

def empty (kind : Kind) (q : Fifo α c) : Bool :=
  match kind with
  | .spsc => Container.readAvailable q == 0
  | .mpmc => Container.empty q

def size (q : Fifo α c) : ℕ := Container.readAvailable q

def call (kind : Kind) : Object (Op α kind) (Fifo α c) (Answer α)
  | .push data, q =>
      let (q, pushed) := push kind data q
      some (q, .bool pushed)
  | .pop data, q =>
      let (q, success, data) := pop data q
      some (q, .filled success data)
  | .boundedPush data, q =>
      let (q, pushed) := boundedPush kind data q
      some (q, .bool pushed)
  | .getLatest data, q =>
      let (q, success, data) := getLatest data q
      some (q, .filled success data)
  | .empty, q => some (q, .bool (empty kind q))
  | .size _, q => some (q, .count (size q))

/-! ## The abstract queue -/

/-- The same calls on a list of at most `c` elements, oldest first. -/
def Reference.call (c : ℕ) (kind : Kind) : Object (Op α kind) (List α) (Answer α)
  | .push data, l =>
      if l.length < c then some (l ++ [data], .bool true) else some (l, .bool false)
  | .pop data, [] => some ([], .filled false data)
  | .pop _, x :: l => some (l, .filled true x)
  | .boundedPush data, l => some ((l ++ [data]).rtake c, .bool true)
  | .getLatest data, l =>
      match l.getLast? with
      | some x => some ([], .filled true x)
      | none => some (l, .filled false data)
  | .empty, l => some (l, .bool l.isEmpty)
  | .size _, l => some (l, .count l.length)

/-! ## One call -/

variable {kind : Kind} {q q' : Fifo α c} {data : α}

theorem push_of_push (h : q.push data = some q') : push kind data q = (q', true) := by
  cases kind <;> simp [push, Container.boundedPush, Container.push, h]

theorem push_of_isFull (h : q.IsFull) : push kind data q = (q, false) := by
  have hnone := (Fifo.push_eq_none_iff (x := data)).mpr h
  cases kind <;> simp [push, Container.boundedPush, Container.push, hnone]

/-- `bounded_push` is the push that drops the oldest element of a full queue. -/
theorem boundedPush_eq (hc : 0 < c) : boundedPush kind data q = (q.pushDropOldest data, true) := by
  unfold boundedPush
  by_cases hfull : q.IsFull
  · rw [push_of_isFull hfull]
    cases hpop : q.pop with
    | none =>
      have hempty := Fifo.pop_eq_none_iff.mp hpop
      have hlength : q.items.length = c := hfull
      rw [hempty] at hlength
      exact absurd hlength (Nat.ne_of_lt hc)
    | some r =>
      obtain ⟨oldest, rest⟩ := r
      have hroom : ¬ rest.IsFull := Fifo.not_isFull_of_cons (Fifo.pop_eq_some_iff.mp hpop)
      obtain ⟨q', hq'⟩ := Fifo.exists_push hroom (x := data)
      have hdrop : q.pushDropOldest data = q' := by
        simp [Fifo.pushDropOldest, Fifo.push_eq_none_iff.mpr hfull, hpop, hq']
      simp [Container.pop, hpop, push_of_push hq', hdrop]
  · obtain ⟨q', hq'⟩ := Fifo.exists_push hfull (x := data)
    rw [push_of_push hq', Fifo.pushDropOldest_of_push hq']
    rfl

theorem foldl_last (l : List α) (data : α) :
    l.foldl (fun _ d => d) data = l.getLast?.getD data := by
  induction l generalizing data with
  | nil => rfl
  | cons x l ih =>
    rw [List.foldl_cons, ih, List.getLast?_cons]
    rfl

/-- The elements are all that is left of a queue. -/
theorem call_refines (hc : 0 < c) :
    Object.Refines (call kind) (Reference.call c kind) (fun _ : Fifo α c => True)
      Fifo.items where
  invariant _ _ _ _ _ _ := trivial
  commutes op q _ := by
    cases op with
    | push data =>
      by_cases hfull : q.IsFull
      · have hlength : ¬ q.items.length < c := Nat.not_lt.mpr (Nat.le_of_eq (Eq.symm hfull))
        simp [call, Reference.call, push_of_isFull hfull, hlength]
      · obtain ⟨q', hq'⟩ := Fifo.exists_push hfull (x := data)
        have hlength : q.items.length < c := Nat.lt_of_le_of_ne q.bound hfull
        simp [call, Reference.call, push_of_push hq', hlength, Fifo.items_of_push hq']
    | pop data =>
      cases hpop : q.pop with
      | none =>
        have hempty := Fifo.pop_eq_none_iff.mp hpop
        simp [call, Reference.call, pop, Container.pop, hpop, hempty]
      | some r =>
        obtain ⟨x, q'⟩ := r
        have hitems := Fifo.pop_eq_some_iff.mp hpop
        simp [call, Reference.call, pop, Container.pop, hpop, hitems]
    | boundedPush data =>
      simp [call, Reference.call, boundedPush_eq hc, Fifo.items_pushDropOldest hc]
    | getLatest data =>
      cases hlast : q.items.getLast? with
      | none =>
        have hempty : q.items = [] := List.getLast?_eq_none_iff.mp hlast
        simp [call, Reference.call, getLatest, Fifo.consumeAll, Fifo.empty, hempty]
      | some x =>
        have hcount : 0 < q.items.length := by
          refine List.length_pos_iff.mpr fun hempty => ?_
          rw [hempty] at hlast
          cases hlast
        simp [call, Reference.call, getLatest, Fifo.consumeAll, Fifo.empty, foldl_last, hlast,
          hcount]
    | empty =>
      cases kind with
      | spsc =>
        cases hitems : q.items with
        | nil => simp [call, Reference.call, empty, Container.readAvailable, hitems]
        | cons x l => simp [call, Reference.call, empty, Container.readAvailable, hitems]
      | mpmc => simp [call, Reference.call, empty, Container.empty]
    | size h => simp [call, Reference.call, size, Container.readAvailable]

/-- Consecutive calls of `bounded_push` all return true and leave the last elements. -/
theorem run_boundedPush (hc : 0 < c) (xs : List α) :
    (call kind).run (xs.map .boundedPush) q =
      some (xs.foldl Fifo.pushDropOldest q, xs.map fun _ => .bool true) := by
  induction xs generalizing q with
  | nil => rfl
  | cons x xs ih =>
    simp only [List.map_cons, Object.run, call, boundedPush_eq hc, Option.bind_some, ih,
      Option.map_some, List.foldl_cons]

/-- **A bounded queue that can drop its oldest elements.**  Every sequence of calls, on either
container, has the results of the same calls on a list and leaves the same elements; after any number
of `bounded_push` the queue holds the last `c` of the old and the new ones. -/
theorem run_items (hc : 0 < c) (kind : Kind) (q : Fifo α c) :
    (∀ ops : List (Op α kind), ((call kind).run ops q).map (Prod.map Fifo.items id) =
      (Reference.call c kind).run ops q.items) ∧
      ∀ xs : List α, ∃ q' : Fifo α c,
        (call kind).run (xs.map .boundedPush) q =
          some (q', xs.map fun _ => .bool true) ∧
        q'.items = (q.items ++ xs).rtake c :=
  ⟨Object.run_map (call_refines hc) trivial,
    fun xs => ⟨_, run_boundedPush hc xs, Fifo.items_foldl_pushDropOldest hc xs⟩⟩

theorem run_items_dropped :
    ((call .mpmc).run [.boundedPush 1, .boundedPush 2, .boundedPush 3, .getLatest 0]
        (Fifo.empty : Fifo ℕ 2)).map (Prod.map Fifo.items id) =
      some ([], [.bool true, .bool true, .bool true, .filled true 3]) := by
  rw [(run_items (by decide) .mpmc Fifo.empty).1]
  rfl

end LockFreeQueueBase
