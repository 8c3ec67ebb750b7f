import RealtimeTools.AsyncHandler.Calls

/-!
# Waiting for the end of a cycle

Clients that wait for a cycle block on `cycle_end_condition_` while `trigger_in_progress_` is set, and
only the worker notifies it.  `reset_variables` clears the flag too, without a notification, and the
worker may leave its loop, or have left it, with the flag set.  What the clients may rely on holds in
the runs in which neither happens to a cycle somebody waits for.
-/

open Interleaving

namespace AsyncFunctionHandler

variable {κ T E : Type} {s s' : State κ T E} {k : κ}

namespace WorkerPc

/-- The worker has cleared `trigger_in_progress_` and is still before its `notify_all`. -/
def clearing : WorkerPc T E → Bool
  | .loop _ .unlock | .loop _ .notifyAll => true
  | _ => false

def hasLeft : WorkerPc T E → Bool
  | .finished => true
  | _ => false

/-- The next step tests `stop_async_callback_` at the loop head. -/
def atHead : WorkerPc T E → Bool
  | .loop _ .head => true
  | _ => false

end WorkerPc

namespace ClientPc

/-- The next step is the store of `reset_variables` that clears `trigger_in_progress_`. -/
def resetting : ClientPc T → Bool
  | .reset _ .storeTrigger => true
  | _ => false

end ClientPc

/-- Client `k` is blocked on `cycle_end_condition_` and no notification has reached it since. -/
def WaitsForCycle (k : κ) (s : State κ T E) : Prop :=
  (∃ pausing, s.client k = .wait pausing .blocked) ∧ Thread.client k ∈ s.cycleEndCondition

/-- Whoever waits has an open cycle to wait for, or a worker that is about to notify. -/
def WaitersHeeded (s : State κ T E) : Prop :=
  ∀ k, Thread.client k ∈ s.cycleEndCondition →
    s.triggerInProgress = true ∨ s.worker.clearing = true

theorem QuietMove.not_clearing {pc pc' : WorkerPc T E} (h : QuietMove s pc pc') :
    pc.clearing = false := by
  cases h with
  | firstTrue site _ | firstFalse site _ | stopTrue site _ | stopFalse site _ =>
    cases site <;> rfl
  | _ => rfl

/-- Elsewhere than between the store and the notification the worker does not touch the waiters. -/
theorem WaitersHeeded.of_quiet (h : WaitersHeeded s) (hpc : s.worker.clearing = false)
    (hcycle : s'.cycleEndCondition = s.cycleEndCondition)
    (htrigger : s'.triggerInProgress = s.triggerInProgress) : WaitersHeeded s' := by
  intro k hk
  rcases h k (hcycle ▸ hk) with hbusy | hclear
  · exact .inl (htrigger.trans hbusy)
  · cases hpc.symm.trans hclear

section Steps

variable [DecidableEq κ]

theorem WorkerEffect.heeded (h : WorkerEffect s s') (hheeded : WaitersHeeded s) :
    WaitersHeeded s' := by
  cases h with
  | quiet hpc hm _ => exact hheeded.of_quiet hpc.not_clearing (by rw [hm]) (by rw [hm])
  | fault hpc hm _ =>
    intro k hk
    rw [hm] at hk ⊢
    exact hpc ▸ hheeded k hk
  | clear site hpc hpc' _ _ hm _ => exact fun k _ => .inr (by rw [hpc']; rfl)
  | clearStopped site hpc hpc' _ hm _ => exact fun k _ => .inr (by rw [hpc']; rfl)
  | unlock site hpc hpc' _ _ hm _ => exact fun k _ => .inr (by rw [hpc']; rfl)
  | notifyAll site hpc hpc' hm _ =>
    intro k hk
    rw [hm] at hk
    exact absurd hk (Finset.notMem_empty _)
  | lock site hpc _ _ hm _ | wake site hpc _ hm _ =>
    refine hheeded.of_quiet ?_ (by rw [hm]) (by rw [hm])
    rw [hpc]
    cases site <;> rfl
  | block site hpc _ _ _ hm _ =>
    refine hheeded.of_quiet ?_ (by rw [hm]) (by rw [hm])
    rw [hpc]
    cases site <;> rfl
  | prologueUnlock hpc _ _ hm _ | readPrevious _ hpc _ hm _ | measure _ hpc _ _ hm _
  | invoke _ hpc _ _ _ hm _ | callbackReturned _ _ hpc _ _ _ hm _
  | callbackThrew _ _ hpc _ _ _ hm _ | storeReturn _ _ hpc _ _ _ hm _
  | storeException _ _ hpc _ _ _ hm _ =>
    exact hheeded.of_quiet (by rw [hpc]; rfl) (by rw [hm]) (by rw [hm])

/-- A reset that clears `trigger_in_progress_` now leaves nobody waiting for a notification that does
not come. -/
def ResetHeeds (s : State κ T E) : Thread κ → Prop
  | .worker => True
  | .client k => (s.client k).resetting = true →
      s.triggerInProgress = false ∨ s.cycleEndCondition = ∅ ∨ s.worker.clearing = true

instance (s : State κ T E) : ∀ t, Decidable (ResetHeeds s t)
  | .worker => inferInstanceAs (Decidable True)
  | .client _ => inferInstanceAs (Decidable (_ → _))

theorem ClientEffect.heeded [Inhabited T] (h : ClientEffect k s s') (hworker : s'.worker = s.worker)
    (hno : ∀ call, s.client k ≠ .init call) (hreset : ResetHeeds s (.client k))
    (hheeded : WaitersHeeded s) : WaitersHeeded s' := by
  unfold WaitersHeeded
  rw [hworker]
  cases h with
  | init call hpc _ _ => exact absurd hpc (hno call)
  | storeTrigger time period _ _ _ _ hm _ => exact fun j _ => .inl (by rw [hm])
  | waitCycle _ hbusy hm _ =>
    intro j _
    exact .inl (by rw [hm]; exact hbusy)
  | wakeCycle hm _ =>
    intro j hj
    rw [hm] at hj ⊢
    exact hheeded j (CondVar.wake_subset hj)
  | resetTrigger starting _ hpc hm _ =>
    intro j hj
    rw [hm] at hj
    have hj : Thread.client j ∈ s.cycleEndCondition := hj
    -- The three ways in which clearing the flag leaves nobody behind.
    rcases hreset (by rw [hpc]; rfl) with hidle | hempty | hclear
    · rcases hheeded j hj with hbusy | hclear
      · cases hidle.symm.trans hbusy
      · exact .inr hclear
    · rw [hempty] at hj
      exact absurd hj (Finset.notMem_empty _)
    · exact .inr hclear
  | _ =>
    rename_i hm _
    rw [hm]
    exact hheeded

theorem reachable_heeded [Inhabited T] {policy : AsyncSchedulingPolicy} {allowed : Call → Bool}
    {permit : State κ T E → Thread κ → Oracle κ T E → Prop}
    (hallowed : ∀ s t o, permit s t o → Calling allowed s t o)
    (hsetup : ∀ call, allowed call = true → call.setsUp = false)
    (hreset : ∀ s k o, InCall allowed s → permit s (.client k) o → ResetHeeds s (.client k))
    (h : Reachable (startedHandler κ T E policy) permit s) :
    Started policy allowed s ∧ WaitersHeeded s := by
  refine started_invariant hallowed hsetup ?_ ?_ ?_ h
  · exact fun _ _ _ _ k hk => absurd hk (Finset.notMem_empty _)
  · exact fun s o s' _ _ hheeded _ _ heffect => heffect.heeded hheeded
  · intro s k o s' hfacts _ hheeded hp hs hworker hno _
    exact hs.effect.heeded hworker hno.not_init (hreset s k o hfacts.calls hp) hheeded

/-! ## Resets -/

/-- The calls of a handler that is not stopped while it runs. -/
def cycling : Call → Bool
  | .trigger _ _ | .wait | .pause | .reset => true
  | _ => false

omit [DecidableEq κ] in
theorem setsUp_of_cycling {call : Call} (h : cycling call = true) : call.setsUp = false := by
  cases call <;> first | rfl | cases h

/-- Clients trigger, wait, pause and reset, and no reset clears a cycle somebody waits for. -/
def ResettingCarefully (s : State κ T E) (t : Thread κ) (o : Oracle κ T E) : Prop :=
  Calling cycling s t o ∧ ResetHeeds s t

instance (s : State κ T E) (t : Thread κ) (o : Oracle κ T E) :
    Decidable (ResettingCarefully s t o) :=
  inferInstanceAs (Decidable (_ ∧ _))

/-- **No forgotten waiter.**  While a client waits for the end of a cycle that is over, the worker, who
cleared `trigger_in_progress_`, is still before its `notify_all`. -/
theorem waiter_not_forgotten [Inhabited T]
    (h : Reachable (startedHandler κ T E .synchronized) ResettingCarefully s)
    (hwait : WaitsForCycle k s) (hover : s.triggerInProgress = false) :
    s.worker.clearing = true := by
  obtain ⟨_, hheeded⟩ := reachable_heeded (fun _ _ _ hp => hp.1) (fun _ => setsUp_of_cycling)
    (fun _ _ _ _ hp => hp.2) h
  rcases hheeded k hwait.2 with hbusy | hclear
  · cases hover.symm.trans hbusy
  · exact hclear

end Steps

/-- Client `false` triggers a cycle and waits for its end; the worker runs it up to its `notify_all`. -/
def cycleAwaited : List (Thread Bool × Oracle Bool Nat Unit) :=
  List.replicate 13 (.client false, { call := .trigger 1 1, callback := .ok 0 }) ++
    List.replicate 5 (.client false, { call := .wait, callback := .ok 0 }) ++
    List.replicate 9 (.worker, { callback := .ok 0 })

theorem waiter_not_forgotten_cleared :
    ∃ s : State Bool Nat Unit,
      Reachable (startedHandler Bool Nat Unit .synchronized) ResettingCarefully s ∧
        WaitsForCycle false s ∧ s.triggerInProgress = false ∧ s.worker.clearing = true := by
  obtain ⟨s, hs, hp⟩ := exists_reachable_of_exec
    (startedHandler Bool Nat Unit .synchronized) ResettingCarefully cycleAwaited
    (started {} true 0)
    (fun s => (s.client false = .wait false .blocked ∧
      Thread.client false ∈ s.cycleEndCondition) ∧ s.triggerInProgress = false)
    ⟨_, _, _, rfl, rfl⟩ (by decide)
  obtain ⟨⟨hpc, hmem⟩, hover⟩ : (s.client false = .wait false .blocked ∧
      Thread.client false ∈ s.cycleEndCondition) ∧ s.triggerInProgress = false := by
    simpa using hp
  have hwait : WaitsForCycle false s := ⟨⟨false, hpc⟩, hmem⟩
  exact ⟨s, hs, hwait, hover, waiter_not_forgotten hs hwait hover⟩

/-- Client `false` triggers a cycle and waits for its end; client `true` resets the handler before the
worker runs. -/
def cycleReset : List (Thread Bool × Oracle Bool Nat Unit) :=
  List.replicate 13 (.client false, { call := .trigger 1 1, callback := .ok 0 }) ++
    List.replicate 5 (.client false, { call := .wait, callback := .ok 0 }) ++
    List.replicate 8 (.client true, { call := .reset, callback := .ok 0 })

/-- The reset has returned, the waiter is still blocked, and the worker has no cycle to end. -/
theorem waiter_forgotten_by_reset :
    ∃ s : State Bool Nat Unit,
      Reachable (startedHandler Bool Nat Unit .synchronized) (Calling cycling) s ∧
        WaitsForCycle false s ∧ s.triggerInProgress = false ∧ s.worker.clearing = false ∧
        s.client true = .idle := by
  obtain ⟨s, hs, hp⟩ := exists_reachable_of_exec
    (startedHandler Bool Nat Unit .synchronized) (Calling cycling) cycleReset
    (started {} true 0)
    (fun s => (s.client false = .wait false .blocked ∧
      Thread.client false ∈ s.cycleEndCondition) ∧ s.triggerInProgress = false ∧
        s.worker.clearing = false ∧ s.client true = .idle)
    ⟨_, _, _, rfl, rfl⟩ (by decide)
  obtain ⟨⟨hpc, hmem⟩, hrest⟩ : (s.client false = .wait false .blocked ∧
      Thread.client false ∈ s.cycleEndCondition) ∧ s.triggerInProgress = false ∧
        s.worker.clearing = false ∧ s.client true = .idle := by
    simpa using hp
  exact ⟨s, hs, ⟨⟨false, hpc⟩, hmem⟩, hrest⟩

/-! ## Stopping -/

section Stopping

/-- The worker does not leave its loop while a cycle is open, and no trigger is accepted once it has
left. -/
def LeavesNoCycle (s : State κ T E) : Thread κ → Prop
  | .worker => s.worker.atHead = true → s.stopAsyncCallback = true → s.triggerInProgress = false
  | .client k => (s.client k).accepting = true → s.worker.hasLeft = false

instance (s : State κ T E) : ∀ t, Decidable (LeavesNoCycle s t)
  | .worker => inferInstanceAs (Decidable (_ → _))
  | .client _ => inferInstanceAs (Decidable (_ → _))

/-- A call of `stop_thread` has returned; no other call in question returns nothing. -/
def StopReturned (s : State κ T E) : Prop := ∃ k, Event.returned k .unit ∈ s.history

structure NoneOpen (s : State κ T E) : Prop where
  left : s.worker = .finished → s.triggerInProgress = false
  returned : StopReturned s → s.worker = .finished

theorem QuietMove.left {pc pc' : WorkerPc T E} (h : QuietMove s pc pc') :
    pc ≠ .finished ∧ (pc' = .finished → pc.atHead = true ∧ s.stopAsyncCallback = true) := by
  cases h with
  | leave site hs => exact ⟨by simp, fun _ => ⟨rfl, hs⟩⟩
  | firstTrue site _ | firstFalse site _ | stopTrue site _ | stopFalse site _ =>
    cases site <;> simp [WaitSite.pc, WaitSite.exit]
  | _ => simp

variable [DecidableEq κ]

/-- The worker finishes only at the loop head, and with nothing but the test. -/
theorem WorkerEffect.left (h : WorkerEffect s s') (hw : s'.worker = .finished) :
    s'.toMembers = s.toMembers ∧
      (s.worker = .finished ∨ (s.worker.atHead = true ∧ s.stopAsyncCallback = true)) := by
  cases h with
  | quiet hpc hm _ => exact ⟨hm, .inr (hpc.left.2 hw)⟩
  | fault hpc hm _ => exact ⟨hm, .inl (hpc ▸ hw)⟩
  | lock site _ hpc' _ _ _ | wake site _ hpc' _ _ =>
    cases site <;> cases hpc'.symm.trans hw
  | block site _ hpc' _ _ _ _ => cases site <;> cases hpc'.symm.trans hw
  | storeReturn site _ _ hpc' _ _ _ _ | storeException site _ _ hpc' _ _ _ _ =>
    cases site <;> cases hpc'.symm.trans hw
  | prologueUnlock _ hpc' _ _ _ | readPrevious _ _ hpc' _ _ | measure _ _ hpc' _ _ _
  | invoke _ _ hpc' _ _ _ _ | callbackReturned _ _ _ hpc' _ _ _ _
  | callbackThrew _ _ _ hpc' _ _ _ _ | clear _ _ hpc' _ _ _ _ | clearStopped _ _ hpc' _ _ _
  | unlock _ _ hpc' _ _ _ _ | notifyAll _ _ hpc' _ _ => cases hpc'.symm.trans hw

theorem WorkerEffect.finished (h : WorkerEffect s s') (hw : s.worker = .finished) :
    s'.worker = .finished := by
  cases h with
  | quiet hpc _ _ => exact absurd hw hpc.left.1
  | fault hpc _ _ => exact hpc.trans hw
  | lock site hpc _ _ _ _ | wake site hpc _ _ _ => cases site <;> cases hpc.symm.trans hw
  | block site hpc _ _ _ _ _ => cases site <;> cases hpc.symm.trans hw
  | prologueUnlock hpc _ _ _ _ | readPrevious _ hpc _ _ _ | measure _ hpc _ _ _ _
  | invoke _ hpc _ _ _ _ _ | callbackReturned _ _ hpc _ _ _ _ _
  | callbackThrew _ _ hpc _ _ _ _ _ | storeReturn _ _ hpc _ _ _ _ _
  | storeException _ _ hpc _ _ _ _ _ | clear _ hpc _ _ _ _ _ | clearStopped _ hpc _ _ _ _
  | unlock _ hpc _ _ _ _ _ | notifyAll _ hpc _ _ _ => cases hpc.symm.trans hw

/-- The worker records no return of a call. -/
theorem WorkerEffect.returned_mem {r : Result T E} (h : WorkerEffect s s')
    (hmem : Event.returned k r ∈ s'.history) : Event.returned k r ∈ s.history := by
  cases h <;> rename_i hh <;> rw [hh] at hmem <;> simpa using hmem

theorem WorkerEffect.noneOpen (h : WorkerEffect s s') (hleaves : LeavesNoCycle s .worker)
    (hopen : NoneOpen s) : NoneOpen s' where
  left hw := by
    obtain ⟨hm, hfrom⟩ := h.left hw
    rw [hm]
    rcases hfrom with hfinished | ⟨hhead, hstop⟩
    · exact hopen.left hfinished
    · exact hleaves hhead hstop
  returned := by
    rintro ⟨k, hmem⟩
    exact h.finished (hopen.returned ⟨k, h.returned_mem hmem⟩)

variable [Inhabited T] {o : Oracle κ T E}

/-- The calls that may be made while one client stops the handler. -/
def stopping : Call → Bool
  | .trigger _ _ | .wait | .stop => true
  | _ => false

omit [DecidableEq κ] [Inhabited T] in
theorem setsUp_of_stopping {call : Call} (h : stopping call = true) : call.setsUp = false := by
  cases call <;> first | rfl | cases h

omit [DecidableEq κ] [Inhabited T] in
/-- A call that returns nothing is one of `stop_thread`, and finds the worker finished. -/
theorem finished_of_returns {pc : ClientPc T} (hat : At .worker s)
    (hcall : ∀ call, pc.call? = some call → stopping call = true) (hret : Returns s pc .unit) :
    s.worker = .finished := by
  cases hret with
  | joined hw => exact hw
  | notRunning hj =>
    by_contra hw
    cases (hat.2 hw).symm.trans hj
  | reset | alreadyStarted | spawned | initialized call => exact nomatch hcall _ rfl

theorem NoneOpen.clientStep (h : NoneOpen s) (hat : At .worker s) (hcalls : InCall stopping s)
    (hleaves : LeavesNoCycle s (.client k)) (hs : ClientStep k s s')
    (hworker : s'.worker = s.worker) (hno : ∀ call, s.client k ≠ .init call)
    (hstep : clientStep s k o = some s') : NoneOpen s' where
  left hw := by
    rw [hworker] at hw
    -- The worker has left, so no trigger may be accepted now.
    refine hs.effect.not_accepted hno (h.left hw) ?_
    by_contra haccept
    have hleft := hleaves (by simpa using haccept)
    rw [hw] at hleft
    cases hleft
  returned := by
    rw [hworker]
    rintro ⟨j, hmem⟩
    rcases hs.effect.history with hh | ⟨e, _, hh⟩ <;> rw [hh] at hmem
    · exact h.returned ⟨j, hmem⟩
    · rcases List.mem_append.mp hmem with hmem | hlast
      · exact h.returned ⟨j, hmem⟩
      · obtain rfl := List.mem_singleton.mp hlast
        exact finished_of_returns hat (hcalls k) (clientStep_returned hstep hh).2.1

/-- Clients trigger, wait and stop, and the worker leaves no cycle behind. -/
def StoppingCarefully (s : State κ T E) (t : Thread κ) (o : Oracle κ T E) : Prop :=
  Calling stopping s t o ∧ LeavesNoCycle s t

instance (s : State κ T E) (t : Thread κ) (o : Oracle κ T E) :
    Decidable (StoppingCarefully s t o) :=
  inferInstanceAs (Decidable (_ ∧ _))

/-- **No cycle is left open.**  Once the worker has left its loop, and so once `stop_thread` has
returned, no cycle is in progress and nobody waits for the end of one. -/
theorem stopped_without_cycle
    (h : Reachable (startedHandler κ T E .synchronized) StoppingCarefully s)
    (hstopped : s.worker = .finished ∨ StopReturned s) :
    s.triggerInProgress = false ∧ ∀ k, ¬ WaitsForCycle k s := by
  -- Nobody resets the handler.
  have hheeds : ∀ (s : State κ T E) k (_ : Oracle κ T E), InCall stopping s →
      ResetHeeds s (.client k) := by
    intro s k _ hcalls hreset
    cases hpc : s.client k <;> rw [hpc] at hreset <;> try cases hreset
    case reset starting pc =>
      have hcall := hcalls k _ (by rw [hpc]; rfl)
      cases starting <;> cases hcall
  obtain ⟨_, hheeded⟩ := reachable_heeded (fun _ _ _ hp => hp.1) (fun _ => setsUp_of_stopping)
    (fun s k o hcalls _ => hheeds s k o hcalls) h
  have hopen : Started .synchronized stopping s ∧ NoneOpen s := by
    refine started_invariant (fun _ _ _ hp => hp.1) (fun _ => setsUp_of_stopping) ?_ ?_ ?_ h
    · exact fun _ _ _ _ => ⟨fun hw => (nomatch hw), fun ⟨_, hmem⟩ => (nomatch hmem)⟩
    · exact fun s _ _ _ _ hopen hp _ heffect => heffect.noneOpen hp.2 hopen
    · intro s k o s' hfacts _ hopen hp hs hworker hno hstep
      exact hopen.clientStep (hfacts.at_ .worker) hfacts.calls hp.2 hs hworker hno.not_init hstep
  have hw : s.worker = .finished := hstopped.elim id hopen.2.returned
  refine ⟨hopen.2.left hw, fun k hwait => ?_⟩
  rcases hheeded k hwait.2 with hbusy | hclear
  · cases (hopen.2.left hw).symm.trans hbusy
  · rw [hw] at hclear
    cases hclear

end Stopping

/-- Client `false` triggers a cycle, the worker runs it and goes back to the loop head, and client
`true` stops the handler. -/
def stoppedAfterCycle : List (Thread Bool × Oracle Bool Nat Unit) :=
  List.replicate 13 (.client false, { call := .trigger 1 1, callback := .ok 0 }) ++
    List.replicate 11 (.worker, { callback := .ok 0 }) ++
    List.replicate 6 (.client true, { call := .stop, callback := .ok 0 }) ++
    [(.worker, { callback := .ok 0 }), (.client true, { callback := .ok 0 })]

theorem stopped_without_cycle_afterCycle :
    ∃ s : State Bool Nat Unit,
      Reachable (startedHandler Bool Nat Unit .synchronized) StoppingCarefully s ∧
        StopReturned s ∧ s.triggerInProgress = false ∧ ∀ k, ¬ WaitsForCycle k s := by
  obtain ⟨s, hs, hp⟩ := exists_reachable_of_exec
    (startedHandler Bool Nat Unit .synchronized) StoppingCarefully stoppedAfterCycle
    (started {} true 0) (fun s => .returned true .unit ∈ s.history) ⟨_, _, _, rfl, rfl⟩ (by decide)
  have hreturned : StopReturned s := ⟨true, by simpa using hp⟩
  exact ⟨s, hs, hreturned, stopped_without_cycle hs (.inr hreturned)⟩

/-- The worker is at the loop head when client `false` triggers a cycle and waits for its end, and
client `true` stores the stop flag before the worker tests it. -/
def stoppedWithCycle : List (Thread Bool × Oracle Bool Nat Unit) :=
  [(.worker, { callback := .ok 0 })] ++
    List.replicate 13 (.client false, { call := .trigger 1 1, callback := .ok 0 }) ++
    List.replicate 5 (.client false, { call := .wait, callback := .ok 0 }) ++
    List.replicate 6 (.client true, { call := .stop, callback := .ok 0 }) ++
    [(.worker, { callback := .ok 0 }), (.client true, { callback := .ok 0 })]

/-- `stop_thread` has returned, the cycle is still in progress, and its waiter is still blocked. -/
theorem cycle_left_open_by_stop :
    ∃ s : State Bool Nat Unit,
      Reachable (startedHandler Bool Nat Unit .synchronized) (Calling stopping) s ∧
        s.worker = .finished ∧ StopReturned s ∧ s.triggerInProgress = true ∧
        WaitsForCycle false s ∧ s.client true = .idle := by
  obtain ⟨s, hs, hp⟩ := exists_reachable_of_exec
    (startedHandler Bool Nat Unit .synchronized) (Calling stopping) stoppedWithCycle
    (started {} true 0)
    (fun s => s.worker = .finished ∧ .returned true .unit ∈ s.history ∧
      s.triggerInProgress = true ∧ (s.client false = .wait false .blocked ∧
      Thread.client false ∈ s.cycleEndCondition) ∧ s.client true = .idle)
    ⟨_, _, _, rfl, rfl⟩ (by decide)
  obtain ⟨hw, hreturned, hbusy, ⟨hpc, hmem⟩, hidle⟩ : s.worker = .finished ∧
      .returned true .unit ∈ s.history ∧ s.triggerInProgress = true ∧
      (s.client false = .wait false .blocked ∧ Thread.client false ∈ s.cycleEndCondition) ∧
      s.client true = .idle := by
    simpa using hp
  exact ⟨s, hs, hw, ⟨true, hreturned⟩, hbusy, ⟨⟨false, hpc⟩, hmem⟩, hidle⟩

end AsyncFunctionHandler
