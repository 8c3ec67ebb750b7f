import RealtimeTools.Interleaving.History
import RealtimeTools.Queue.Atomicity

/-!
# What bounded_push pushes and discards

The history of a run tells what every call has put into the container and what was thrown away.
Together with the simulation this is what an undisturbed run guarantees; a run in which two other
threads step in between shows what is lost otherwise.
-/

open Interleaving Sequential

namespace LockFreeQueue

variable {κ α : Type} {c : ℕ}

section Ledger

/-- What an event has left in the container. -/
def Event.replay (items : List α) : Event κ α → List α
  | .appended _ data => items ++ [data]
  | .discarded _ _ | .returned _ (.popped (some _)) => items.tail
  | _ => items

/-- The contents of the container after a history. -/
def replay (history : List (Event κ α)) : List α := history.foldl Event.replay []

theorem replay_concat (history : List (Event κ α)) (e : Event κ α) :
    replay (history ++ [e]) = e.replay (replay history) := by
  simp [replay, List.foldl_append]

/-- A `bounded_push` returns true, and a discard happens with `c` elements in the container. -/
def Proper (c : ℕ) (before : List (Event κ α)) : Event κ α → Prop
  | .returned _ (.pushed success) => success = true
  | .discarded _ _ => (replay before).length = c
  | _ => True

variable [DecidableEq κ]

def Event.appendedBy (k : κ) : Event κ α → Option α
  | .appended j data => if j = k then some data else none
  | _ => none

def Event.pushedBy (k : κ) : Event κ α → Option α
  | .called j (.boundedPush data) => if j = k then some data else none
  | _ => none

/-- The elements the calls of `k` have put into the container, in order. -/
def State.appendedBy (s : State κ α c) (k : κ) : List α := s.history.filterMap (Event.appendedBy k)

/-- The arguments of the `bounded_push` calls of `k`, in order. -/
def State.pushedBy (s : State κ α c) (k : κ) : List α := s.history.filterMap (Event.pushedBy k)

/-- The element a call has still to push. -/
def Pc.unpushed : Pc α → List α
  | .boundedPush data _ => [data]
  | _ => []

structure Ledger (s : State κ α c) : Prop where
  contents : replay s.history = s.queue.items
  proper : Justified (Proper c) s.history
  pushed : ∀ k, s.appendedBy k ++ (s.pc k).unpushed = s.pushedBy k

@[simp] theorem State.appendedBy_record (s : State κ α c) (e : Event κ α) (k : κ) :
    (s.record e).appendedBy k = s.appendedBy k ++ (e.appendedBy k).toList :=
  filterMap_concat (Event.appendedBy k) s.history e

@[simp] theorem State.pushedBy_record (s : State κ α c) (e : Event κ α) (k : κ) :
    (s.record e).pushedBy k = s.pushedBy k ++ (e.pushedBy k).toList :=
  filterMap_concat (Event.pushedBy k) s.history e

variable {s s' : State κ α c} {k : κ}

/-- What the threads have pushed after `k` has moved. -/
theorem Ledger.pushed_update {pc : Pc α} (h : Ledger s)
    (hpc : s'.pc = Function.update s.pc k pc)
    (hothers : ∀ j, j ≠ k → s'.appendedBy j = s.appendedBy j ∧ s'.pushedBy j = s.pushedBy j)
    (hk : s'.appendedBy k ++ pc.unpushed = s'.pushedBy k) (j : κ) :
    s'.appendedBy j ++ (s'.pc j).unpushed = s'.pushedBy j := by
  rw [hpc]
  by_cases hj : j = k
  · subst hj
    rw [Function.update_self]
    exact hk
  · rw [Function.update_of_ne hj, (hothers j hj).1, (hothers j hj).2]
    exact h.pushed j

/-- A move of `k` between two points with the same element to push. -/
theorem Ledger.pushed_move {pc : Pc α} (h : Ledger s) (hpc : s'.pc = Function.update s.pc k pc)
    (happended : s'.appendedBy = s.appendedBy) (hpushed : s'.pushedBy = s.pushedBy)
    (hk : pc.unpushed = (s.pc k).unpushed) (j : κ) :
    s'.appendedBy j ++ (s'.pc j).unpushed = s'.pushedBy j := by
  refine h.pushed_update hpc (fun i _ => ⟨congrFun happended i, congrFun hpushed i⟩) ?_ j
  rw [happended, hpushed, hk]
  exact h.pushed k

theorem Ledger.record_contents {e : Event κ α} {items : List α} (h : Ledger s)
    (he : e.replay s.queue.items = items) : replay (s.history ++ [e]) = items := by
  rw [replay_concat, h.contents, he]

/-- The container takes the element of `k`, and the call returns true. -/
theorem Ledger.appended {data : α} {pc : BoundedPushPc} {queue : Fifo α c} (h : Ledger s)
    (hpc : s.pc k = .boundedPush data pc) (hq : s.queue.push data = some queue) :
    Ledger (appended s k data queue) := by
  have hitems : queue.items = s.queue.items ++ [data] := Fifo.items_of_push hq
  have hidle : (LockFreeQueue.appended s k data queue).pc = Function.update s.pc k .idle := rfl
  have happended : ∀ j, (LockFreeQueue.appended s k data queue).appendedBy j =
      s.appendedBy j ++ (Event.appendedBy j (.appended k data)).toList := by
    intro j
    simp only [LockFreeQueue.appended, State.appendedBy_record]
    exact List.append_nil _
  have hpushed : ∀ j, (LockFreeQueue.appended s k data queue).pushedBy j = s.pushedBy j := by
    intro j
    simp only [LockFreeQueue.appended, State.pushedBy_record]
    exact (List.append_nil _).trans (List.append_nil _)
  refine ⟨?_, justified_concat.mpr ⟨justified_concat.mpr ⟨h.proper, trivial⟩, rfl⟩, ?_⟩
  · show replay ((s.history ++ [.appended k data]) ++ [.returned k (.pushed true)]) = queue.items
    have happend : Event.replay s.queue.items (.appended k data) = queue.items := hitems.symm
    rw [replay_concat, h.record_contents happend]
    rfl
  · refine h.pushed_update hidle (fun j hj => ⟨?_, hpushed j⟩) ?_
    · rw [happended j, Event.appendedBy, if_neg (Ne.symm hj)]
      exact List.append_nil _
    · have hk := h.pushed k
      rw [hpc] at hk
      rw [happended k, hpushed k, Event.appendedBy, if_pos rfl, ← hk]
      exact List.append_nil _

theorem Ledger.called {call : Call α} (h : Ledger s) (hpc : s.pc k = .idle) :
    Ledger ((s.goto k call.entry).record (.called k call)) := by
  refine ⟨h.record_contents rfl, justified_concat.mpr ⟨h.proper, trivial⟩, ?_⟩
  have hentry : ((s.goto k call.entry).record (.called k call)).pc =
      Function.update s.pc k call.entry := rfl
  have happended : ∀ j, ((s.goto k call.entry).record (.called k call)).appendedBy j =
      s.appendedBy j := by
    intro j
    rw [State.appendedBy_record]
    exact List.append_nil _
  have hpushed : ∀ j, ((s.goto k call.entry).record (.called k call)).pushedBy j =
      s.pushedBy j ++ (Event.pushedBy j (.called k call)).toList := State.pushedBy_record _ _
  have hk : s.appendedBy k = s.pushedBy k := by
    have hall := h.pushed k
    rw [hpc] at hall
    exact (List.append_nil _).symm.trans hall
  refine h.pushed_update hentry (fun j hj => ⟨happended j, ?_⟩) ?_
  · rw [hpushed j]
    cases call with
    | boundedPush data =>
      rw [Event.pushedBy, if_neg (Ne.symm hj)]
      exact List.append_nil _
    | pop => exact List.append_nil _
  · rw [happended k, hpushed k, hk]
    cases call with
    | boundedPush data =>
      rw [Event.pushedBy, if_pos rfl]
      rfl
    | pop => rfl

/-- A pop, by a consumer or to make room. -/
theorem Ledger.record {pc : Pc α} {e : Event κ α} {queue : Fifo α c} (h : Ledger s)
    (hcontents : e.replay s.queue.items = queue.items) (hproper : Proper c s.history e)
    (happended : ∀ j, e.appendedBy j = none) (hpushed : ∀ j, e.pushedBy j = none)
    (hk : pc.unpushed = (s.pc k).unpushed) :
    Ledger (({ s with queue }.goto k pc).record e) := by
  refine ⟨h.record_contents hcontents, justified_concat.mpr ⟨h.proper, hproper⟩, ?_⟩
  refine h.pushed_move rfl (funext fun j => ?_) (funext fun j => ?_) hk
  · rw [State.appendedBy_record, happended j]
    exact List.append_nil _
  · rw [State.pushedBy_record, hpushed j]
    exact List.append_nil _

theorem Ledger.step {call : Call α} (h : Ledger s) (hp : Undisturbed s k call)
    (hs : step k call s = some s') : Ledger s' := by
  unfold Undisturbed at hp
  cases step_cases hs with
  | called call hpc => exact h.called hpc
  | appended data pc queue hpc hne hq => exact h.appended hpc hq
  | full data hpc hq | spared data hpc hq =>
    exact ⟨h.contents, h.proper, h.pushed_move rfl rfl rfl (by rw [hpc]; rfl)⟩
  | discarded data dummy queue hpc hq =>
    rw [hpc] at hp
    have hfull : s.queue.IsFull := hp.resolve_right (by rw [hq]; exact List.cons_ne_nil _ _)
    have hlength : (replay s.history).length = c := by rw [h.contents]; exact hfull
    exact h.record (by rw [hq]; rfl) hlength (fun _ => rfl) (fun _ => rfl) (by rw [hpc]; rfl)
  | refused data hpc hq =>
    -- The condition leaves room for the second push.
    rw [hpc] at hp
    exact absurd hq hp.1
  | popped data queue hpc hq =>
    exact h.record (by rw [hq]; rfl) trivial (fun _ => rfl) (fun _ => rfl) (by rw [hpc]; rfl)
  | foundEmpty hpc hq =>
    exact h.record rfl trivial (fun _ => rfl) (fun _ => rfl) (by rw [hpc]; rfl)

theorem reachable_ledger (h : Reachable (queue κ α c) Undisturbed s) : Ledger s := by
  refine h.invariant ?_ ?_
  · rintro s rfl
    exact ⟨rfl, justified_nil, fun _ => rfl⟩
  · intro s k call s' _ hl hp hs
    exact hl.step hp hs

/-- **One atomic push.**  In every undisturbed run each completed `bounded_push` has returned true and
has put its element into the container once, elements are thrown away only while the container holds
`c` of them, and the calls and returns are those of a run in which each call is a single step, with
the same contents when no call is under way. -/
theorem bounded_push_atomic (h : Reachable (queue κ α c) Undisturbed s) :
    (∀ k success, .returned k (.pushed success) ∈ s.history → success = true) ∧
      (∀ k, s.pc k = .idle → s.appendedBy k = s.pushedBy k) ∧
      (∀ before k dummy after, s.history = before ++ .discarded k dummy :: after →
        (replay before).length = c) ∧
      ∃ t, Reachable (atomicQueue κ α c) anyStep t ∧ t.history = s.calls ∧
        ((∀ k, s.pc k = .idle) → t.value = s.queue) := by
  have hl := reachable_ledger h
  refine ⟨fun k success hmem => ?_, fun k hidle => ?_, fun before k dummy after hcut => ?_, ?_⟩
  · obtain ⟨before, after, hcut⟩ := List.append_of_mem hmem
    exact hl.proper before _ after hcut
  · have hk := hl.pushed k
    rw [hidle] at hk
    exact (List.append_nil _).symm.trans hk
  · exact hl.proper before _ after hcut
  · -- With nobody inside a call no room is left by a discard.
    obtain ⟨t, ht, hsim⟩ := reachable_simulated h
    refine ⟨t, ht, hsim.calls, fun hidle => ?_⟩
    have hcontents := hsim.contents
    cases hgap : s.gap with
    | closed => rwa [hgap] at hcontents
    | fresh k dummy =>
      rw [hgap] at hcontents
      obtain ⟨_, _, data, hpc⟩ := hcontents
      rw [hidle k] at hpc
      cases hpc
    | tapped k =>
      rw [hgap] at hcontents
      obtain ⟨data, hpc, _⟩ := hcontents
      rw [hidle k] at hpc
      cases hpc

end Ledger

/-- Thread 0 pushes into a full queue of capacity 2, and while it is between its discard and its
second push a consumer takes the next element. -/
theorem bounded_push_atomic_tapped :
    ∃ s : State ℕ ℕ 2, Reachable (queue ℕ ℕ 2) Undisturbed s ∧ .discarded 0 1 ∈ s.history ∧
      ((∀ k success, .returned k (.pushed success) ∈ s.history → success = true) ∧
        (∀ k, s.pc k = .idle → s.appendedBy k = s.pushedBy k) ∧
        (∀ before k dummy after, s.history = before ++ .discarded k dummy :: after →
          (replay before).length = 2) ∧
        ∃ t, Reachable (atomicQueue ℕ ℕ 2) anyStep t ∧ t.history = s.calls ∧
          ((∀ k, s.pc k = .idle) → t.value = s.queue)) := by
  let pushes (data : ℕ) : ℕ × Call ℕ := (0, .boundedPush data)
  let pops : ℕ × Call ℕ := (1, .pop)
  obtain ⟨s, hs, hp⟩ := exists_reachable_of_exec (queue ℕ ℕ 2) Undisturbed
    [pushes 1, pushes 1, pushes 2, pushes 2, pushes 3, pushes 3, pushes 3, pops, pops, pushes 3]
    initial (fun s => .discarded 0 1 ∈ s.history) rfl (by decide)
  exact ⟨s, hs, of_decide_eq_true hp, bounded_push_atomic hs⟩

/-- Thread 0 finds the queue of capacity 2 full, and a consumer makes room before thread 0 throws an
element away: one too many.  Thread 1 then fills the queue, and the second push of thread 0 fails: its
call returns false, and its element is lost with the one it has discarded. -/
theorem bounded_push_disturbed :
    ∃ s : State ℕ ℕ 2, Reachable (queue ℕ ℕ 2) anyStep s ∧
      .returned 0 (.pushed false) ∈ s.history ∧
      s.pushedBy 0 = [1, 2, 3] ∧ s.appendedBy 0 = [1, 2] ∧
      ∃ before after, s.history = before ++ .discarded 0 2 :: after ∧
        (replay before).length = 1 := by
  let pushes (k data : ℕ) : ℕ × Call ℕ := (k, .boundedPush data)
  let pops : ℕ × Call ℕ := (1, .pop)
  let before : List (Event ℕ ℕ) :=
    [.called 0 (.boundedPush 1), .appended 0 1, .returned 0 (.pushed true),
      .called 0 (.boundedPush 2), .appended 0 2, .returned 0 (.pushed true),
      .called 0 (.boundedPush 3), .called 1 .pop, .returned 1 (.popped (some 1))]
  let after : List (Event ℕ ℕ) :=
    [.called 1 (.boundedPush 4), .appended 1 4, .returned 1 (.pushed true),
      .called 1 (.boundedPush 5), .appended 1 5, .returned 1 (.pushed true),
      .returned 0 (.pushed false)]
  obtain ⟨s, hs, hp⟩ := exists_reachable_of_exec (queue ℕ ℕ 2) anyStep
    [pushes 0 1, pushes 0 1, pushes 0 2, pushes 0 2, pushes 0 3, pushes 0 3, pops, pops,
      pushes 0 3, pushes 1 4, pushes 1 4, pushes 1 5, pushes 1 5, pushes 0 3]
    initial (fun s => s.history = before ++ .discarded 0 2 :: after) rfl (by decide)
  have hhistory : s.history = before ++ .discarded 0 2 :: after := of_decide_eq_true hp
  refine ⟨s, hs, ?_, ?_, ?_, before, after, hhistory, by decide⟩
  · rw [hhistory]
    decide
  · rw [State.pushedBy, hhistory]
    decide
  · rw [State.appendedBy, hhistory]
    decide

end LockFreeQueue
