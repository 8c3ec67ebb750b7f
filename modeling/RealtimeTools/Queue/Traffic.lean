import RealtimeTools.Interleaving.History
import RealtimeTools.Queue.Model

/-!
# All calls of a LockFreeMPMCQueue

Any number of threads call `push`, `bounded_push`, `pop`, `get_latest` and `empty` over a
`boost::lockfree::queue` whose `bounded_push`, `pop` and `empty` are atomic.  `consume_all` takes the
elements one by one, so other threads may step in between.  Whatever they do, nothing is lost,
duplicated or overtaken on the way through the container, and every call tells the truth about its own
part.
-/

open Interleaving Sequential

namespace LockFreeMPMCQueue

open LockFreeQueue (BoundedPushPc)

inductive Call (α : Type)
  | push (data : α)
  | boundedPush (data : α)
  | pop
  | getLatest
  | empty
  deriving DecidableEq

inductive Result (α : Type)
  | pushed (success : Bool)
  /-- `pop` returns false and leaves its argument alone at `none`. -/
  | popped (data : Option α)
  /-- `get_latest` returns false and leaves its argument alone at `none`. -/
  | latest (data : Option α)
  | isEmpty (value : Bool)
  deriving DecidableEq

inductive Pc (α : Type)
  | idle
  | push (data : α)
  | boundedPush (data : α) (pc : BoundedPushPc)
  | pop
  /-- Inside `consume_all`, and what the visitor has written last. -/
  | getLatest (data : Option α)
  | empty
  | done (result : Result α)
  deriving DecidableEq

inductive Event (κ α : Type)
  | called (k : κ) (call : Call α)
  | returned (k : κ) (result : Result α)
  /-- The container takes an element from `k`. -/
  | appended (k : κ) (data : α)
  /-- `k` takes an element from the container. -/
  | removed (k : κ) (data : α)
  deriving DecidableEq

structure State (κ α : Type) (c : ℕ) where
  queue : Fifo α c
  pc : κ → Pc α
  history : List (Event κ α)

variable {κ α : Type} {c : ℕ}

namespace State

def goto [DecidableEq κ] (s : State κ α c) (k : κ) (pc : Pc α) : State κ α c :=
  { s with pc := Function.update s.pc k pc }

def record (s : State κ α c) (e : Event κ α) : State κ α c :=
  { s with history := s.history ++ [e] }

end State

def initial : State κ α c where
  queue := Fifo.empty
  pc := fun _ => .idle
  history := []

section Steps

variable [DecidableEq κ]

/-- `data_queue_.bounded_push(data)`, and where the caller goes if it fails. -/
def containerPush (s : State κ α c) (k : κ) (data : α) (full : Pc α) : State κ α c :=
  match s.queue.push data with
  | some queue => ({ s with queue }.goto k (.done (.pushed true))).record (.appended k data)
  | none => s.goto k full

/-- `data_queue_.pop`, and where the caller goes with what it finds. -/
def containerPop (s : State κ α c) (k : κ) (found : Option α → Pc α) : State κ α c :=
  match s.queue.pop with
  | some (data, queue) => ({ s with queue }.goto k (found (some data))).record (.removed k data)
  | none => s.goto k (found none)

def push (s : State κ α c) (k : κ) (data : α) : State κ α c :=
  containerPush s k data (.done (.pushed false))

def boundedPush (s : State κ α c) (k : κ) (data : α) : BoundedPushPc → State κ α c
  | .push => containerPush s k data (.boundedPush data .discard)
  -- Whether there was anything to pop is not tested.
  | .discard => containerPop s k fun _ => .boundedPush data .pushAgain
  | .pushAgain => containerPush s k data (.done (.pushed false))

def pop (s : State κ α c) (k : κ) : State κ α c := containerPop s k fun data => .done (.popped data)

/-- `consume_all` goes on until it finds the container empty. -/
def getLatest (s : State κ α c) (k : κ) (latest : Option α) : State κ α c :=
  containerPop s k fun
    | some data => .getLatest (some data)
    | none => .done (.latest latest)

def empty (s : State κ α c) (k : κ) : State κ α c :=
  s.goto k (.done (.isEmpty s.queue.items.isEmpty))

/-- The first program point of a call. -/
def Call.entry : Call α → Pc α
  | .push data => .push data
  | .boundedPush data => .boundedPush data .push
  | .pop => .pop
  | .getLatest => .getLatest none
  | .empty => .empty

/-- The next step of `k`; an idle thread makes the call `call`. -/
def step (k : κ) (call : Call α) (s : State κ α c) : Option (State κ α c) :=
  match s.pc k with
  | .idle => some ((s.goto k call.entry).record (.called k call))
  | .push data => some (push s k data)
  | .boundedPush data pc => some (boundedPush s k data pc)
  | .pop => some (pop s k)
  | .getLatest latest => some (getLatest s k latest)
  | .empty => some (empty s k)
  | .done result => some ((s.goto k .idle).record (.returned k result))

/-- All runs from construction, with a container of capacity `c`. -/
def queue (κ α : Type) [DecidableEq κ] (c : ℕ) : System κ (Call α) (State κ α c) where
  start s := s = initial
  step := step

end Steps

/-! ## What the observer sees -/

def Event.appended? : Event κ α → Option α
  | .appended _ data => some data
  | _ => none

def Event.removed? : Event κ α → Option α
  | .removed _ data => some data
  | _ => none

def Event.thread : Event κ α → κ
  | .called k _ | .returned k _ | .appended k _ | .removed k _ => k

namespace State

/-- What the container has taken, in order. -/
def appended (s : State κ α c) : List α := s.history.filterMap Event.appended?

/-- What has been taken from the container, in order. -/
def removed (s : State κ α c) : List α := s.history.filterMap Event.removed?

variable [DecidableEq κ]

/-- The events of one thread, in order. -/
def eventsOf (k : κ) (s : State κ α c) : List (Event κ α) := s.history.filter fun e => e.thread = k

/-- What thread `k` has taken from the container, in order. -/
def removedBy (k : κ) (s : State κ α c) : List α := (s.eventsOf k).filterMap Event.removed?

end State

/-! ## What a call does -/

/-- What happens between a call of `k` and its return. -/
def Outcome (k : κ) (events : List (Event κ α)) : Call α → Result α → Prop
  | .push data, .pushed success => events = if success then [.appended k data] else []
  | .boundedPush data, .pushed success => ∃ dummy : Option α,
      events = dummy.toList.map (.removed k) ++ if success then [.appended k data] else []
  | .pop, .popped data => events = data.toList.map (.removed k)
  | .getLatest, .latest data => ∃ taken : List α, events = taken.map (.removed k) ∧ data = taken.getLast?
  | .empty, .isEmpty _ => events = []
  | _, _ => False

/-- A sequence of calls that have returned. -/
inductive Calls (k : κ) : List (Event κ α) → Prop
  | nil : Calls k []
  | snoc {before events : List (Event κ α)} {call : Call α} {result : Result α}
      (h : Calls k before) (hout : Outcome k events call result) :
      Calls k (before ++ .called k call :: (events ++ [.returned k result]))

/-- What a call of `k` has done when it is at `pc`. -/
def Pending (k : κ) (events : List (Event κ α)) : Pc α → Prop
  | .idle => events = []
  | .push data => events = [.called k (.push data)]
  | .boundedPush data .pushAgain => ∃ dummy : Option α,
      events = .called k (.boundedPush data) :: dummy.toList.map (.removed k)
  | .boundedPush data _ => events = [.called k (.boundedPush data)]
  | .pop => events = [.called k .pop]
  | .getLatest data => ∃ taken : List α,
      events = .called k .getLatest :: taken.map (.removed k) ∧ data = taken.getLast?
  | .empty => events = [.called k .empty]
  | .done result => ∃ call since, events = .called k call :: since ∧ Outcome k since call result

/-- The events of `k` are calls that have returned, and then those of the call it is in. -/
def MakesCalls (k : κ) (events : List (Event κ α)) (pc : Pc α) : Prop :=
  ∃ before since, events = before ++ since ∧ Calls k before ∧ Pending k since pc

/-! ## What a step does -/

/-- What an event does to the container. -/
def Event.Moves (e : Event κ α) (queue queue' : Fifo α c) : Prop :=
  match e with
  | .called _ _ | .returned _ _ => queue' = queue
  | .appended _ data => queue'.items = queue.items ++ [data]
  | .removed _ data => queue.items = data :: queue'.items

section Steps

variable [DecidableEq κ]

/-- A step of `k` goes on with its call, and adds at most one event to the history. -/
inductive Step (k : κ) (s : State κ α c) : State κ α c → Prop
  | silent (pc : Pc α) (h : ∀ since, Pending k since (s.pc k) → Pending k since pc) :
      Step k s (s.goto k pc)
  | event (queue : Fifo α c) (pc : Pc α) (e : Event κ α) (hk : e.thread = k)
      (hq : e.Moves s.queue queue)
      (h : ∀ events, MakesCalls k events (s.pc k) → MakesCalls k (events ++ [e]) pc) :
      Step k s (({ s with queue }.goto k pc).record e)

variable {s s' : State κ α c} {k : κ} {pc pc' : Pc α}

omit [DecidableEq κ] in
theorem MakesCalls.move {events more : List (Event κ α)} (h : MakesCalls k events pc)
    (hpending : ∀ since, Pending k since pc → Pending k (since ++ more) pc') :
    MakesCalls k (events ++ more) pc' := by
  obtain ⟨before, since, rfl, hbefore, hsince⟩ := h
  exact ⟨before, since ++ more, List.append_assoc _ _ _, hbefore, hpending since hsince⟩

theorem containerPush_step {data : α} {full : Pc α}
    (hfull : ∀ since, Pending k since (s.pc k) → Pending k since full)
    (happended : ∀ since, Pending k since (s.pc k) →
      Pending k (since ++ [.appended k data]) (.done (.pushed true))) :
    Step k s (containerPush s k data full) := by
  unfold containerPush
  split
  · rename_i queue hq
    exact .event queue _ _ rfl (Fifo.items_of_push hq) fun _ h => h.move happended
  · exact .silent full hfull

theorem containerPop_step {found : Option α → Pc α}
    (hnone : ∀ since, Pending k since (s.pc k) → Pending k since (found none))
    (hsome : ∀ data since, Pending k since (s.pc k) →
      Pending k (since ++ [.removed k data]) (found (some data))) :
    Step k s (containerPop s k found) := by
  unfold containerPop
  split
  · rename_i data queue hq
    exact .event queue _ _ rfl (Fifo.pop_eq_some_iff.mp hq) fun _ h => h.move (hsome data)
  · exact .silent _ hnone

theorem step_cases {call : Call α} (h : step k call s = some s') : Step k s s' := by
  unfold step at h
  cases hpc : s.pc k with
  | idle =>
    simp only [hpc, Option.some.injEq] at h
    subst h
    refine .event s.queue _ _ rfl rfl fun _ h => h.move fun since hsince => ?_
    rw [hpc] at hsince
    obtain rfl : since = [] := hsince
    cases call with
    | getLatest => exact ⟨[], rfl, rfl⟩
    | _ => rfl
  | push data =>
    simp only [hpc, Option.some.injEq] at h
    subst h
    apply containerPush_step <;> rw [hpc] <;> rintro since rfl
    · exact ⟨_, [], rfl, rfl⟩
    · exact ⟨_, [.appended k data], rfl, rfl⟩
  | boundedPush data pc =>
    simp only [hpc, Option.some.injEq] at h
    subst h
    cases pc with
    | push =>
      apply containerPush_step <;> rw [hpc] <;> rintro since rfl
      · rfl
      · exact ⟨_, [.appended k data], rfl, none, rfl⟩
    | discard =>
      show Step k s (containerPop s k fun _ => .boundedPush data .pushAgain)
      apply containerPop_step <;> rw [hpc]
      · rintro since rfl
        exact ⟨none, rfl⟩
      · rintro dummy since rfl
        exact ⟨some dummy, rfl⟩
    | pushAgain =>
      apply containerPush_step <;> rw [hpc] <;> rintro since ⟨dummy, rfl⟩
      · exact ⟨_, _, rfl, dummy, by simp⟩
      · exact ⟨_, _, List.cons_append, dummy, by simp⟩
  | pop =>
    simp only [hpc, Option.some.injEq] at h
    subst h
    apply containerPop_step <;> rw [hpc]
    · rintro since rfl
      exact ⟨_, [], rfl, rfl⟩
    · rintro data since rfl
      exact ⟨_, [.removed k data], rfl, rfl⟩
  | getLatest latest =>
    simp only [hpc, Option.some.injEq] at h
    subst h
    apply containerPop_step <;> rw [hpc]
    · rintro since ⟨taken, rfl, rfl⟩
      exact ⟨_, _, rfl, taken, rfl, rfl⟩
    · rintro data since ⟨taken, rfl, _⟩
      exact ⟨taken ++ [data], by simp, by simp⟩
  | empty =>
    simp only [hpc, Option.some.injEq] at h
    subst h
    refine .silent _ fun since hsince => ?_
    rw [hpc] at hsince
    obtain rfl : since = _ := hsince
    exact ⟨_, [], rfl, rfl⟩
  | done result =>
    simp only [hpc, Option.some.injEq] at h
    subst h
    refine .event s.queue _ _ rfl rfl ?_
    rw [hpc]
    -- The call has come to its end.
    rintro _ ⟨before, _, rfl, hbefore, call, since, rfl, hout⟩
    exact ⟨_, [], by simp, .snoc hbefore hout, rfl⟩

/-! ## Runs -/

/-- Everything the container has taken is still in it or has left it, in the same order. -/
structure Conserved (s : State κ α c) : Prop where
  contents : s.appended = s.removed ++ s.queue.items
  calls : ∀ k, MakesCalls k (s.eventsOf k) (s.pc k)

theorem Conserved.step (h : Conserved s) (hs : Step k s s') : Conserved s' := by
  cases hs with
  | silent pc hpending =>
    refine ⟨h.contents, fun j => ?_⟩
    show MakesCalls j (s.eventsOf j) (Function.update s.pc k pc j)
    by_cases hjk : j = k
    · subst hjk
      rw [Function.update_self, ← List.append_nil (s.eventsOf j)]
      exact (h.calls j).move fun since => by simpa using hpending since
    · rw [Function.update_of_ne hjk]
      exact h.calls j
  | event queue pc e hk hq hcalls =>
    constructor
    · show (s.history ++ [e]).filterMap Event.appended? =
        (s.history ++ [e]).filterMap Event.removed? ++ queue.items
      have hcontents : s.history.filterMap Event.appended? =
        s.history.filterMap Event.removed? ++ s.queue.items := h.contents
      rw [filterMap_concat, filterMap_concat, hcontents]
      cases e with
      | called _ _ | returned _ _ =>
        obtain rfl : queue = s.queue := hq
        simp [Event.appended?, Event.removed?]
      | appended j data =>
        have hq : queue.items = s.queue.items ++ [data] := hq
        simp [Event.appended?, Event.removed?, hq]
      | removed j data =>
        have hq : s.queue.items = data :: queue.items := hq
        simp [Event.appended?, Event.removed?, hq]
    · intro j
      show MakesCalls j ((s.history ++ [e]).filter fun e => e.thread = j)
        (Function.update s.pc k pc j)
      rw [List.filter_append]
      by_cases hjk : j = k
      · subst hjk
        rw [Function.update_self, List.filter_singleton, hk, decide_eq_true rfl, cond_true]
        exact hcalls _ (h.calls j)
      · rw [Function.update_of_ne hjk, List.filter_singleton, hk,
          decide_eq_false (Ne.symm hjk), cond_false, List.append_nil]
        exact h.calls j

theorem reachable_conserved (h : Reachable (queue κ α c) anyStep s) : Conserved s := by
  refine h.invariant ?_ ?_
  · rintro s rfl
    exact ⟨rfl, fun k => ⟨[], [], rfl, .nil, rfl⟩⟩
  · intro s k call s' _ hI _ hs
    exact hI.step (step_cases hs)

/-- **The container is a queue for all calls.**  In every run of any threads the elements leave the
container in the order in which they have come, each of them once, and those that have not left are still
there.  So every thread takes elements in that order.  And every call does what its result says: a push
that returns true has put its element in exactly once, a `pop` returns the element it has taken, and
`get_latest` the last of those it has taken. -/
theorem queue_conserves (h : Reachable (queue κ α c) anyStep s) :
    s.appended = s.removed ++ s.queue.items ∧ (∀ k, (s.removedBy k).Sublist s.appended) ∧
      ∀ k, MakesCalls k (s.eventsOf k) (s.pc k) := by
  have hI := reachable_conserved h
  refine ⟨hI.contents, fun k => ?_, hI.calls⟩
  rw [hI.contents]
  exact (List.Sublist.filterMap _ List.filter_sublist).trans (List.sublist_append_left _ _)

end Steps

/-- The room that one thread has made for its element is taken by another, which then takes everything
out. -/
def refusedPush : List (Bool × Call Nat) :=
  List.replicate 3 (true, .boundedPush 1) ++ List.replicate 3 (true, .boundedPush 2) ++
    List.replicate 3 (true, .boundedPush 3) ++ List.replicate 3 (false, .push 4) ++
    List.replicate 2 (true, .boundedPush 3) ++ List.replicate 5 (false, .getLatest)

theorem queue_conserves_refused :
    ∃ s : State Bool Nat 2, Reachable (queue Bool Nat 2) anyStep s ∧ s.removed = [1, 2, 4] ∧
      s.removedBy false = [2, 4] ∧ .returned true (.pushed false) ∈ s.history ∧
      .returned false (.latest (some 4)) ∈ s.history ∧ s.appended = s.removed ++ s.queue.items ∧
      ∀ k, MakesCalls k (s.eventsOf k) (s.pc k) := by
  obtain ⟨s, hs, hp⟩ := exists_reachable_of_exec (queue Bool Nat 2) anyStep refusedPush initial
    (fun s => s.removed = [1, 2, 4] ∧ s.removedBy false = [2, 4] ∧
      .returned true (.pushed false) ∈ s.history ∧
      .returned false (.latest (some 4)) ∈ s.history) rfl (by decide)
  obtain ⟨hremoved, hby, hrefused, hlatest⟩ : s.removed = [1, 2, 4] ∧ s.removedBy false = [2, 4] ∧
      .returned true (.pushed false) ∈ s.history ∧
      .returned false (.latest (some 4)) ∈ s.history := by
    simpa using hp
  obtain ⟨hcontents, _, hcalls⟩ := queue_conserves hs
  exact ⟨s, hs, hremoved, hby, hrefused, hlatest, hcontents, hcalls⟩

end LockFreeMPMCQueue
