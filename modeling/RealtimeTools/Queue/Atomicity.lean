import Mathlib.Data.List.Basic
import RealtimeTools.Interleaving.AtomicObject
import RealtimeTools.Interleaving.History
import RealtimeTools.Queue.Model

/-!
# When bounded_push is one atomic push

`bounded_push` is three operations on the container, and between them the room a discard has made is
anybody's.  The discard itself may come too late, when a consumer has made room already.  Where
neither happens, every call has the results and the effect of a single step that drops the oldest
element only if the queue is full.
-/

open Interleaving Sequential

namespace LockFreeQueue

variable {κ α : Type} {c : ℕ}

/-! ## The room made by a discard -/

/-- What has become of the room that `k` has made by a discard. -/
inductive Gap (κ α : Type)
  | closed
  /-- Nobody has popped or pushed since `k` has thrown `dummy` away. -/
  | fresh (k : κ) (dummy : α)
  /-- Somebody has popped since, and nobody has pushed. -/
  | tapped (k : κ)

namespace Gap

/-- The element of `k` counts as pushed already. -/
def isTapped [DecidableEq κ] : Gap κ α → κ → Bool
  | .tapped k, j => k = j
  | _, _ => false

/-- After a pop the room is left to the thread that has made it. -/
def leavesRoomTo [DecidableEq κ] : Gap κ α → κ → Bool
  | .tapped k, j => k = j
  | _, _ => true

def isClosed : Gap κ α → Bool
  | .closed => true
  | _ => false

end Gap

def Event.gap : Event κ α → Gap κ α → Gap κ α
  | .appended _ _, _ => .closed
  | .discarded k dummy, _ => .fresh k dummy
  | .returned _ (.popped (some _)), .fresh k _ => .tapped k
  | _, gap => gap

def State.gap (s : State κ α c) : Gap κ α := s.history.foldl (fun gap e => e.gap gap) .closed

@[simp] theorem State.gap_record (s : State κ α c) (e : Event κ α) :
    (s.record e).gap = e.gap s.gap := by
  simp [gap, record, List.foldl_append]

/-- The discarding pop finds the queue full, or empty, and the second push finds room.  Between a
discard and the next push no pop finds the queue empty, and if one of them takes an element, then the
next push is that of the thread that has discarded. -/
def Undisturbed [DecidableEq κ] (s : State κ α c) (k : κ) (_ : Call α) : Prop :=
  match s.pc k with
  | .idle => True
  | .boundedPush _ .push => s.gap.leavesRoomTo k = true
  | .boundedPush _ .discard => s.queue.IsFull ∨ s.queue.items = []
  | .boundedPush _ .pushAgain => ¬ s.queue.IsFull ∧ s.gap.leavesRoomTo k = true
  | .pop => s.gap.isClosed = true ∨ s.queue.items ≠ []

instance [DecidableEq κ] (s : State κ α c) (k : κ) (call : Call α) :
    Decidable (Undisturbed s k call) := by
  unfold Undisturbed
  split <;> infer_instance

/-! ## The atomic queue -/

/-- A queue on which `bounded_push` is a single step. -/
def dropOldestQueue (α : Type) (c : ℕ) : Object (Call α) (Fifo α c) (Result α)
  | .boundedPush data, q => some (q.pushDropOldest data, .pushed true)
  | .pop, q =>
      match q.pop with
      | some (data, q') => some (q', .popped (some data))
      | none => some (q, .popped none)

/-- Runs in which every call takes effect in one step. -/
abbrev atomicQueue (κ α : Type) [DecidableEq κ] (c : ℕ) :
    System κ (Call α) (AtomicState κ (Call α) (Fifo α c) (Result α)) :=
  atomicObject κ (dropOldestQueue α c) (· = Fifo.empty)

/-- The call or return behind an event. -/
def Event.callEvent : Event κ α → Option (CallEvent κ (Call α) (Result α))
  | .called k call => some (.called k call)
  | .returned k result => some (.returned k result)
  | .appended _ _ | .discarded _ _ => none

/-- The calls and returns seen by the threads. -/
def State.calls (s : State κ α c) : List (CallEvent κ (Call α) (Result α)) :=
  s.history.filterMap Event.callEvent

@[simp] theorem State.calls_record (s : State κ α c) (e : Event κ α) :
    (s.record e).calls = s.calls ++ e.callEvent.toList :=
  filterMap_concat Event.callEvent s.history e

/-! ## The simulation -/

section Simulation

variable [DecidableEq κ]

/-- Where `k` is in the atomic queue: past its push if a pop has come after its discard. -/
def Pc.atomic (gap : Gap κ α) (k : κ) : Pc α → CallPc (Call α) (Result α)
  | .idle => .idle
  | .pop => .pending .pop
  | .boundedPush data .pushAgain =>
      if gap.isTapped k then .done (.pushed true) else .pending (.boundedPush data)
  | .boundedPush data _ => .pending (.boundedPush data)

/-- The contents `q` of the atomic queue: without the room made by a fresh discard, and with the
element that is to fill it once somebody has popped. -/
def Contents (s : State κ α c) (q : Fifo α c) : Gap κ α → Prop
  | .closed => q = s.queue
  | .fresh k dummy => q.IsFull ∧ q.items = dummy :: s.queue.items ∧
      ∃ data, s.pc k = .boundedPush data .pushAgain
  | .tapped k => ∃ data, s.pc k = .boundedPush data .pushAgain ∧ q.items = s.queue.items ++ [data]

/-- `t` is the state of the atomic queue that stands for `s`, with `gap` as the room left by a
discard. -/
structure Simulates (gap : Gap κ α) (s : State κ α c)
    (t : AtomicState κ (Call α) (Fifo α c) (Result α)) : Prop where
  calls : t.history = s.calls
  pc : ∀ k, t.pc k = (s.pc k).atomic gap k
  contents : Contents s t.value gap

variable {s s' : State κ α c} {t : AtomicState κ (Call α) (Fifo α c) (Result α)}
  {gap gap' : Gap κ α} {k : κ} {q : Fifo α c}

theorem Pc.atomic_congr {pc : Pc α} (h : gap'.isTapped k = gap.isTapped k) :
    pc.atomic gap' k = pc.atomic gap k := by
  cases pc with
  | boundedPush data pc => cases pc <;> simp only [atomic, h]
  | _ => rfl

/-- The element of a tapped discard belongs to a call before its second push. -/
theorem Contents.pc_of_isTapped (h : Contents s q gap) (ht : gap.isTapped k = true) :
    ∃ data, s.pc k = .boundedPush data .pushAgain := by
  cases gap with
  | tapped j =>
    obtain rfl : j = k := of_decide_eq_true ht
    exact ⟨h.choose, h.choose_spec.1⟩
  | _ => cases ht

/-- Away from the second push a call is pending in the atomic queue. -/
theorem Simulates.not_isTapped (h : Simulates gap s t)
    (hpc : ∀ data, s.pc k ≠ .boundedPush data .pushAgain) : gap.isTapped k = false := by
  by_contra ht
  obtain ⟨data, hdata⟩ := h.contents.pc_of_isTapped (by simpa using ht)
  exact hpc data hdata

omit [DecidableEq κ] in
/-- A full queue has no room left by a discard. -/
theorem Contents.closed_of_isFull (h : Contents s q gap) (hfull : s.queue.IsFull) :
    gap = .closed := by
  cases gap with
  | closed => rfl
  | fresh k dummy => exact absurd hfull (Fifo.not_isFull_of_cons h.2.1)
  | tapped k =>
    obtain ⟨data, _, hq⟩ := h
    have hlength : q.items.length = s.queue.items.length + 1 := by rw [hq, List.length_append]; rfl
    have hbound := q.bound
    unfold Fifo.IsFull at hfull
    omega

/-- Where the threads are after `k` has moved. -/
theorem Simulates.pc_update {pc : Pc α} {p : CallPc (Call α) (Result α)} (h : Simulates gap s t)
    (gap' : Gap κ α) (hpc : s'.pc = Function.update s.pc k pc)
    (hgap : ∀ j, j ≠ k → gap'.isTapped j = gap.isTapped j) (hp : p = pc.atomic gap' k) (j : κ) :
    Function.update t.pc k p j = (s'.pc j).atomic gap' j := by
  rw [hpc]
  by_cases hj : j = k
  · subst hj
    rw [Function.update_self, Function.update_self, hp]
  · rw [Function.update_of_ne hj, Function.update_of_ne hj, h.pc j]
    exact (Pc.atomic_congr (hgap j hj)).symm

omit [DecidableEq κ] in
/-- The contents stay the same while `k` moves anywhere but past its second push. -/
theorem Contents.move (h : Contents s q gap) (hqueue : s'.queue = s.queue)
    (hpc : ∀ j, j ≠ k → s'.pc j = s.pc j)
    (hk : ∀ data, s.pc k ≠ .boundedPush data .pushAgain) : Contents s' q gap := by
  have hkeep : ∀ j data, s.pc j = .boundedPush data .pushAgain →
      s'.pc j = .boundedPush data .pushAgain := by
    intro j data hj
    have hne : j ≠ k := by
      rintro rfl
      exact hk data hj
    rw [hpc j hne, hj]
  cases gap with
  | closed => exact h.trans hqueue.symm
  | fresh j dummy =>
    obtain ⟨hfull, hitems, data, hj⟩ := h
    exact ⟨hfull, hqueue ▸ hitems, data, hkeep j data hj⟩
  | tapped j =>
    obtain ⟨data, hj, hitems⟩ := h
    exact ⟨data, hkeep j data hj, hqueue ▸ hitems⟩

/-- A move of `k` that the atomic queue does not see. -/
theorem Simulates.silent {pc : Pc α} (h : Simulates gap s t) (hqueue : s'.queue = s.queue)
    (hpc : s'.pc = Function.update s.pc k pc) (hcalls : s'.calls = s.calls)
    (hk : ∀ data, s.pc k ≠ .boundedPush data .pushAgain)
    (hp : (s.pc k).atomic gap k = pc.atomic gap k) : Simulates gap s' t where
  calls := h.calls.trans hcalls.symm
  pc := by
    have hself : Function.update t.pc k (t.pc k) = t.pc := Function.update_eq_self k t.pc
    have hupdate := h.pc_update gap hpc (fun _ _ => rfl) ((h.pc k).trans hp)
    rwa [hself] at hupdate
  contents := h.contents.move hqueue
    (fun j hj => by rw [hpc, Function.update_of_ne hj]) hk

/-- The second push of a fresh discard takes effect in the atomic queue. -/
theorem Simulates.settle {dummy : α} (h : Simulates (.fresh k dummy) s t) :
    ∃ t', Continues (atomicQueue κ α c) anyStep t t' ∧ Simulates (.tapped k) s t' := by
  obtain ⟨hfull, hitems, data, hpc⟩ := h.contents
  have hpending : t.pc k = .pending (.boundedPush data) := by
    rw [h.pc k, hpc]
    rfl
  refine ⟨_, continues_commit hpending rfl, h.calls, ?_, data, hpc, ?_⟩
  · have hself : s.pc = Function.update s.pc k (s.pc k) := (Function.update_eq_self k s.pc).symm
    refine h.pc_update (.tapped k) hself ?_ ?_
    · intro j hj
      exact decide_eq_false (Ne.symm hj)
    · rw [hpc]
      exact (if_pos (decide_eq_true rfl)).symm
  · exact Fifo.pushDropOldest_of_isFull hfull hitems

/-- The call of `k` takes effect in the atomic queue and returns. -/
theorem Simulates.returned {call : Call α} {r : Fifo α c × Result α} (h : Simulates gap s t)
    (hpending : t.pc k = .pending call) (hr : dropOldestQueue α c call t.value = some r)
    (hidle : s'.pc = Function.update s.pc k .idle)
    (hcalls : s'.calls = s.calls ++ [.returned k r.2])
    (hgap : ∀ j, j ≠ k → gap'.isTapped j = gap.isTapped j) (hcontents : Contents s' r.1 gap') :
    ∃ t', Continues (atomicQueue κ α c) anyStep t t' ∧ Simulates gap' s' t' := by
  refine ⟨_, continues_commit_finish hpending hr, ?_, ?_, hcontents⟩
  · rw [hcalls, ← h.calls]
    rfl
  · intro j
    show Function.update (Function.update t.pc k _) k .idle j = _
    rw [Function.update_idem]
    exact h.pc_update gap' hidle hgap rfl j

/-- The container takes the element of `k`. -/
theorem Simulates.appended {data : α} {pc : BoundedPushPc} {queue : Fifo α c}
    (h : Simulates gap s t) (hpc : s.pc k = .boundedPush data pc) (hne : pc ≠ .discard)
    (hroom : gap.leavesRoomTo k = true) (hq : s.queue.push data = some queue) :
    ∃ t', Continues (atomicQueue κ α c) anyStep t t' ∧
      Simulates .closed (appended s k data queue) t' := by
  have hcalls : (LockFreeQueue.appended s k data queue).calls =
      s.calls ++ [.returned k (.pushed true)] := by
    simp only [LockFreeQueue.appended, State.calls_record, Event.callEvent, Option.toList_none,
      List.append_nil, Option.toList_some]
    rfl
  have hidle : (LockFreeQueue.appended s k data queue).pc = Function.update s.pc k .idle := rfl
  have hitems : queue.items = s.queue.items ++ [data] := Fifo.items_of_push hq
  by_cases ht : gap.isTapped k = true
  · -- In the atomic queue the element has been pushed before.
    have hdone : t.pc k = .done (.pushed true) := by
      obtain ⟨data', hpc'⟩ := h.contents.pc_of_isTapped ht
      rw [h.pc k, hpc']
      exact if_pos ht
    refine ⟨_, continues_finish .pop hdone, ?_, ?_, ?_⟩
    · rw [hcalls, ← h.calls]
      rfl
    · refine h.pc_update .closed hidle (fun j hj => ?_) rfl
      cases gap with
      | tapped i =>
        obtain rfl : i = k := of_decide_eq_true ht
        exact (decide_eq_false (Ne.symm hj)).symm
      | _ => rfl
    · cases gap with
      | tapped i =>
        obtain rfl : i = k := of_decide_eq_true ht
        obtain ⟨data', hpc', hvalue⟩ := h.contents
        obtain rfl : data' = data := by
          rw [hpc] at hpc'
          injection hpc' with hdata
          exact hdata.symm
        exact Fifo.ext (hvalue.trans hitems.symm)
      | _ => cases ht
  · have hpending : t.pc k = .pending (.boundedPush data) := by
      rw [h.pc k, hpc]
      cases pc with
      | push => rfl
      | discard => exact absurd rfl hne
      | pushAgain => exact if_neg ht
    -- With a fresh gap the atomic queue is full, and this push drops what was discarded.
    have hvalue : (t.value.pushDropOldest data) = queue := by
      cases hgap : gap with
      | closed =>
        have hsame : t.value = s.queue := by
          have hc := h.contents
          rwa [hgap] at hc
        rw [hsame]
        exact Fifo.pushDropOldest_of_push hq
      | fresh j dummy =>
        have hc := h.contents
        rw [hgap] at hc
        exact Fifo.ext ((Fifo.pushDropOldest_of_isFull hc.1 hc.2.1).trans hitems.symm)
      | tapped j =>
        rw [hgap] at ht hroom
        exact absurd hroom ht
    refine h.returned hpending rfl hidle hcalls (fun j hj => ?_) hvalue
    cases gap with
    | tapped i => exact absurd hroom ht
    | _ => rfl

/-- A consumer takes the oldest element. -/
theorem Simulates.popped {data : α} {queue : Fifo α c} (h : Simulates gap s t)
    (hgap : ∀ j dummy, gap ≠ .fresh j dummy) (hpc : s.pc k = .pop)
    (hq : s.queue.items = data :: queue.items) :
    ∃ t', Continues (atomicQueue κ α c) anyStep t t' ∧
      Simulates gap (({ s with queue }.goto k .idle).record (.returned k (.popped (some data))))
        t' := by
  have hpending : t.pc k = .pending .pop := by
    rw [h.pc k, hpc]
    rfl
  let s' : State κ α c :=
    ({ s with queue }.goto k .idle).record (.returned k (.popped (some data)))
  have hidle : s'.pc = Function.update s.pc k .idle := rfl
  have hcalls : s'.calls = s.calls ++ [.returned k (.popped (some data))] :=
    State.calls_record _ _
  obtain ⟨rest, hrest, hvalue⟩ : ∃ rest : Fifo α c, t.value.items = data :: rest.items ∧
      Contents s' rest gap := by
    cases gap with
    | closed =>
      have hsame : t.value = s.queue := h.contents
      exact ⟨queue, by rw [hsame, hq], rfl⟩
    | fresh j dummy => exact absurd rfl (hgap j dummy)
    | tapped j =>
      obtain ⟨data', hj, hitems⟩ := h.contents
      have hcons : t.value.items = data :: (queue.items ++ [data']) := by
        rw [hitems, hq, List.cons_append]
      have hbound : (queue.items ++ [data']).length ≤ c := by
        have := t.value.bound
        rw [hcons, List.length_cons] at this
        omega
      have hne : j ≠ k := by
        rintro rfl
        rw [hpc] at hj
        cases hj
      exact ⟨⟨queue.items ++ [data'], hbound⟩, hcons, data',
        (Function.update_of_ne hne _ _).trans hj, rfl⟩
  have hcommit : dropOldestQueue α c .pop t.value = some (rest, .popped (some data)) := by
    simp only [dropOldestQueue, Fifo.pop_eq_some_iff.mpr hrest]
  exact h.returned hpending hcommit hidle hcalls (fun _ _ => rfl) hvalue

omit [DecidableEq κ] in
theorem not_pushAgain {pc : Pc α} (hpc : s.pc k = pc) (hne : ∀ data, pc ≠ .boundedPush data .pushAgain)
    (data : α) : s.pc k ≠ .boundedPush data .pushAgain :=
  hpc ▸ hne data

theorem step_simulated {call : Call α} (h : Simulates s.gap s t) (hp : Undisturbed s k call)
    (hs : step k call s = some s') :
    ∃ t', Continues (atomicQueue κ α c) anyStep t t' ∧ Simulates s'.gap s' t' := by
  unfold Undisturbed at hp
  cases step_cases hs with
  | called call hpc =>
    have hgap : ((s.goto k call.entry).record (.called k call)).gap = s.gap := State.gap_record _ _
    have hentry : ((s.goto k call.entry).record (.called k call)).pc =
        Function.update s.pc k call.entry := rfl
    have hidle : t.pc k = .idle := by
      rw [h.pc k, hpc]
      rfl
    refine ⟨_, continues_call call hidle, ?_, ?_, ?_⟩
    · rw [State.calls_record]
      exact congrArg (· ++ _) h.calls
    · rw [hgap]
      exact h.pc_update s.gap hentry (fun _ _ => rfl) (by cases call <;> rfl)
    · rw [hgap]
      exact h.contents.move rfl (fun j hj => Function.update_of_ne hj _ _)
        (not_pushAgain hpc nofun)
  | appended data pc queue hpc hne hq =>
    have hgap : (appended s k data queue).gap = .closed := by
      simp only [appended, State.gap_record, Event.gap]
    have hroom : s.gap.leavesRoomTo k = true := by
      rw [hpc] at hp
      cases pc with
      | push => exact hp
      | discard => exact absurd rfl hne
      | pushAgain => exact hp.2
    rw [hgap]
    exact h.appended hpc hne hroom hq
  | full data hpc hq =>
    -- A first push that fails is not seen in the atomic queue.
    exact ⟨t, .refl, h.silent rfl rfl rfl (not_pushAgain hpc nofun) (by rw [hpc]; rfl)⟩
  | discarded data dummy queue hpc hq =>
    -- The atomic queue keeps the element until it has to show that it is gone.
    rw [hpc] at hp
    have hfull : s.queue.IsFull := hp.resolve_right (by rw [hq]; exact List.cons_ne_nil _ _)
    have hclosed : s.gap = .closed := h.contents.closed_of_isFull hfull
    rw [hclosed] at h
    have hvalue : t.value = s.queue := h.contents
    refine ⟨t, .refl, ?_⟩
    rw [State.gap_record]
    refine ⟨?_, ?_, hvalue ▸ hfull, by rw [hvalue, hq]; rfl, data, Function.update_self ..⟩
    · rw [State.calls_record]
      exact h.calls.trans (List.append_nil _).symm
    · have hself : Function.update t.pc k (t.pc k) = t.pc := Function.update_eq_self k t.pc
      have hmoved : (({ s with queue }.goto k (.boundedPush data .pushAgain)).record
          (.discarded k dummy)).pc = Function.update s.pc k (.boundedPush data .pushAgain) := rfl
      have hpending : t.pc k = .pending (.boundedPush data) := by
        rw [h.pc k, hpc]
        rfl
      have hupdate := h.pc_update (.fresh k dummy) hmoved (fun _ _ => rfl) hpending
      rwa [hself] at hupdate
  | spared data hpc hq =>
    -- The queue has been emptied meanwhile, and the second push will be an ordinary one.
    have hnot : s.gap.isTapped k = false := h.not_isTapped (not_pushAgain hpc nofun)
    refine ⟨t, .refl, h.silent rfl rfl rfl (not_pushAgain hpc nofun) ?_⟩
    rw [hpc]
    exact (if_neg (by rw [hnot]; exact Bool.false_ne_true)).symm
  | refused data hpc hq =>
    rw [hpc] at hp
    exact absurd hq hp.1
  | popped data queue hpc hq =>
    rw [State.gap_record]
    show ∃ t', _ ∧ Simulates (Event.gap (.returned k (.popped (some data))) s.gap) _ t'
    cases hgap : s.gap with
    | closed =>
      rw [hgap] at h
      exact h.popped (fun _ _ => nofun) hpc hq
    | fresh j dummy =>
      -- This pop gets the second oldest element, so the push that drops the oldest comes first.
      rw [hgap] at h
      obtain ⟨t₁, hc₁, h₁⟩ := h.settle
      obtain ⟨t₂, hc₂, h₂⟩ := h₁.popped (fun _ _ => nofun) hpc hq
      exact ⟨t₂, hc₁.trans hc₂, h₂⟩
    | tapped j =>
      rw [hgap] at h
      exact h.popped (fun _ _ => nofun) hpc hq
  | foundEmpty hpc hq =>
    -- With room left by a discard the atomic queue would not be empty.
    rw [hpc] at hp
    have hclosed : s.gap = .closed := by
      have hc := hp.resolve_right (fun hne => hne hq)
      cases hgap : s.gap with
      | closed => rfl
      | _ => rw [hgap] at hc; cases hc
    have hgap : ((s.goto k .idle).record (.returned k (.popped none))).gap = .closed := by
      rw [State.gap_record]
      exact hclosed
    have hidle : ((s.goto k .idle).record (.returned k (.popped none))).pc =
        Function.update s.pc k .idle := rfl
    rw [hgap]
    rw [hclosed] at h
    have hvalue : t.value = s.queue := h.contents
    have hpending : t.pc k = .pending .pop := by
      rw [h.pc k, hpc]
      rfl
    have hcommit : dropOldestQueue α c .pop t.value = some (t.value, .popped none) := by
      simp only [dropOldestQueue, Fifo.pop_eq_none_iff.mpr (hvalue ▸ hq)]
    exact h.returned hpending hcommit hidle (State.calls_record _ _) (fun _ _ => rfl) hvalue

theorem reachable_simulated (h : Reachable (queue κ α c) Undisturbed s) :
    ∃ t, Reachable (atomicQueue κ α c) anyStep t ∧ Simulates s.gap s t := by
  refine h.simulation (R := fun s t => Simulates s.gap s t) ?_ ?_
  · rintro s rfl
    exact ⟨⟨Fifo.empty, fun _ => .idle, []⟩, ⟨rfl, fun _ => rfl, rfl⟩, rfl, fun _ => rfl, rfl⟩
  · intro s k call s' t _ hR hp hs
    exact step_simulated hR hp hs

end Simulation

end LockFreeQueue
