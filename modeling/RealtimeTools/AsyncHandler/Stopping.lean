import RealtimeTools.AsyncHandler.Realtime
import RealtimeTools.AsyncHandler.StopRequest
import RealtimeTools.AsyncHandler.Wakeup

/-!
# stop_thread comes to an end

From the `join` of `stop_thread` on, which is all that the destructor calls, the worker is awake and has
at most twelve steps to go, whatever it was doing; it can make them whenever it gets the mutex, and
nobody keeps that.  What is assumed is that no reset takes the request back.
-/

open Interleaving

namespace AsyncFunctionHandler

variable {κ T E : Type} {s s' : State κ T E} {k : κ}

/-! ## Steps to the end -/

/-- The steps of a wait, with the stop flag up, and then `exit` more. -/
@[simp] def WaitPc.leftToStop (exit : ℕ) : WaitPc → ℕ
  | .loadStop => exit + 1
  | .loadFirst => exit + 2
  | .lock => exit + 3
  | .blocked => exit + 4
  | .block => exit + 5

@[simp] def LoopPc.leftToStop : LoopPc T E → ℕ
  | .head => 1
  | .notifyAll => 2
  | .unlock => 3
  | .clear _ => 4
  | .testStop | .sleepUntil => 5
  | .schedule => 6
  | .storeReturn _ | .storeException _ => 7
  | .inCallback => 8
  | .invoke => 9
  | .measure => 10
  | .wait pc => pc.leftToStop 5

@[simp] def ProloguePc.leftToStop : ProloguePc → ℕ
  | .readSteady => 2
  | .sleepPeriod => 3
  | .readPrevious => 4
  | .unlock => 5
  | .wait pc => pc.leftToStop 5
  | .loadPause => 9
  | .testRate => 10
  | .testClock => 11

/-- The steps of the worker until its thread function returns, with the stop flag up. -/
@[simp] def WorkerPc.leftToStop : WorkerPc T E → ℕ
  | .start => 12
  | .prologue pc => pc.leftToStop
  | .loop _ pc => pc.leftToStop
  | .finished => 0

theorem WorkerPc.leftToStop_le (pc : WorkerPc T E) : pc.leftToStop ≤ 12 := by
  cases pc with
  | start | finished => simp
  | prologue pc =>
    cases pc with
    | wait pc => cases pc <;> simp
    | _ => simp
  | loop site pc =>
    cases pc with
    | wait pc => cases pc <;> simp
    | _ => simp

section Steps

variable [DecidableEq κ] {o : Oracle κ T E}

theorem waitAsync_leftToStop {first : Bool} {at_ : WaitPc → WorkerPc T E} {exit : WorkerPc T E}
    {pc : WaitPc} (h : waitAsync s first at_ exit pc = some s') (hs : s.stopAsyncCallback = true)
    (hsite : ∀ pc, (at_ pc).leftToStop = pc.leftToStop 5) (hexit : exit.leftToStop = 5) :
    s'.worker.leftToStop < pc.leftToStop 5 := by
  cases pc with
  | lock =>
    obtain ⟨_, h⟩ := Option.ite_none_right_eq_some.mp h
    obtain rfl := Option.some.inj h
    rw [hsite]
    decide
  | loadFirst =>
    obtain rfl := Option.some.inj h
    dsimp only
    split
    · rw [hexit]
      decide
    · rw [hsite]
      decide
  | loadStop =>
    obtain rfl := Option.some.inj h
    dsimp only
    rw [if_pos hs, hexit]
    decide
  | block | blocked =>
    obtain rfl := Option.some.inj h
    rw [hsite]
    decide

/-- The stop test fails no longer, and what comes after it does not matter. -/
theorem loopBody_leftToStop {site : Loop} {first : Bool} {run next pc : LoopPc T E}
    (h : loopBody site first run next s o pc = some s') (hs : s.stopAsyncCallback = true)
    (hnext : next.leftToStop < 7) : s'.worker.leftToStop < pc.leftToStop := by
  cases pc with
  | head =>
    simp only [loopBody, hs, if_true] at h
    obtain rfl := Option.some.inj h
    simp
  | wait pc =>
    have h : waitAsync s first (fun pc => .loop site (.wait pc)) (.loop site .testStop) pc =
        some s' := h
    exact waitAsync_leftToStop h hs (fun _ => rfl) rfl
  | testStop =>
    obtain rfl := Option.some.inj h
    simp [hs]
  | inCallback =>
    simp only [loopBody] at h
    split at h <;>
    · obtain rfl := Option.some.inj h
      simp [State.record]
  | storeReturn value | storeException e =>
    obtain rfl := Option.some.inj h
    exact hnext
  | clear ran => cases ran <;> obtain rfl := Option.some.inj h <;> simp [State.record]
  | invoke | unlock | notifyAll =>
    obtain rfl := Option.some.inj h
    simp [State.record]
  | measure | schedule | sleepUntil => cases h

theorem executeDetachedCallback_leftToStop {pc : LoopPc T E}
    (h : executeDetachedCallback s o pc = some s') (hs : s.stopAsyncCallback = true)
    (hf : s'.fault = none) : s'.worker.leftToStop < pc.leftToStop := by
  have hbody : ∀ {pc : LoopPc T E},
      loopBody .detached (!s.pauseThread) .measure .schedule s o pc = some s' →
      s'.worker.leftToStop < pc.leftToStop := fun h => loopBody_leftToStop h hs (by simp)
  cases pc with
  | measure | sleepUntil =>
    obtain rfl := Option.some.inj h
    simp
  | schedule =>
    simp only [executeDetachedCallback] at h
    split at h <;> obtain rfl := Option.some.inj h
    · simp
    · cases hf
  | _ => exact hbody h

theorem detachedPrologue_leftToStop {pc : ProloguePc} (h : detachedPrologue s o pc = some s')
    (hs : s.stopAsyncCallback = true) (hf : s'.fault = none) :
    s'.worker.leftToStop < pc.leftToStop := by
  cases pc with
  | testClock =>
    simp only [detachedPrologue] at h
    split at h <;> obtain rfl := Option.some.inj h
    · simp
    · cases hf
  | testRate =>
    simp only [detachedPrologue] at h
    split at h <;> obtain rfl := Option.some.inj h
    · cases hf
    · simp
  | loadPause =>
    obtain rfl := Option.some.inj h
    dsimp only
    split <;> simp
  | wait pc =>
    have h : waitAsync s (!s.pauseThread) (fun pc => .prologue (.wait pc)) (.prologue .unlock) pc =
        some s' := h
    exact waitAsync_leftToStop h hs (fun _ => rfl) rfl
  | unlock | readPrevious | sleepPeriod | readSteady =>
    obtain rfl := Option.some.inj h
    simp

/-- Every step of a worker that has been stopped brings it nearer its end. -/
theorem workerStep_leftToStop (h : workerStep s o = some s') (hs : s.stopAsyncCallback = true)
    (hf : s'.fault = none) : s'.worker.leftToStop < s.worker.leftToStop := by
  unfold workerStep at h
  cases hw : s.worker with
  | start =>
    simp only [hw] at h
    split at h <;>
    · obtain rfl := Option.some.inj h
      simp
  | prologue pc =>
    simp only [hw] at h
    exact detachedPrologue_leftToStop h hs hf
  | loop site pc =>
    cases site <;> simp only [hw] at h
    · exact loopBody_leftToStop h hs (by simp)
    · exact executeDetachedCallback_leftToStop h hs hf
  | finished =>
    simp only [hw] at h
    cases h

/-! ## The worker is awake -/

/-- The worker decides to block only where it finds the stop flag down. -/
theorem WorkerEffect.stop_of_block (h : WorkerEffect s s')
    (hb : s'.worker.waitPc? = some .block) :
    s.stopAsyncCallback = false ∨ s'.worker = s.worker := by
  cases h with
  | quiet hpc _ _ => exact .inl (hpc.waitPc?.2.2 hb)
  | fault hpc _ _ => exact .inr hpc
  | lock site _ hpc' | block site _ hpc' | wake site _ hpc' => simp [hpc'] at hb
  | storeReturn site _ _ hpc' | storeException site _ _ hpc' =>
    rw [hpc'] at hb
    cases site <;> cases hb
  | prologueUnlock _ hpc' | readPrevious _ _ hpc' | measure _ _ hpc' | invoke _ _ hpc'
  | callbackReturned _ _ _ hpc' | callbackThrew _ _ _ hpc' | clear _ _ hpc' | clearStopped _ _ hpc'
  | unlock _ _ hpc' | notifyAll _ _ hpc' =>
    rw [hpc'] at hb
    cases hb

/-- The worker enters the condition variable where it blocks. -/
theorem WorkerEffect.asleep (h : WorkerEffect s s')
    (hmem : Thread.worker ∈ s'.asyncCallbackCondition) :
    Thread.worker ∈ s.asyncCallbackCondition ∨ s.worker.waitPc? = some .block := by
  cases h with
  | block site hpc => exact .inr (by rw [hpc, WorkerPc.waitPc?_pc])
  | wake site _ _ hm _ =>
    rw [hm] at hmem
    exact absurd rfl (CondVar.mem_wake.mp hmem).1
  | _ =>
    rename_i hm _
    rw [hm] at hmem
    exact .inl hmem

/-- From the release of `async_mtx_` on the worker does not block, and from the notification on it is
awake. -/
structure Roused (s : State κ T E) : Prop where
  released : ∀ k, StopReleased k s → s.worker.waitPc? ≠ some .block
  joining : ∀ k, s.client k = .stop .join → Thread.worker ∉ s.asyncCallbackCondition

omit [DecidableEq κ] in
theorem not_block_of_owns (hat : At .worker s) (hown : Owns (.client k) s) :
    s.worker.waitPc? ≠ some .block := by
  intro hb
  have hpc : WorkerPcAt s s.worker := hat.1
  have hnot : ¬ Owns .worker s := fun hworker => nomatch hworker.symm.trans hown
  unfold WorkerPc.waitPc? at hb
  split at hb <;> rename_i hw
  · rw [hw] at hpc
    obtain rfl := Option.some.inj hb
    exact hnot hpc.1
  · rw [hw] at hpc
    obtain rfl := Option.some.inj hb
    exact hnot hpc.1
  · cases hb

theorem Roused.workerStep (h : Roused s) (hkept : RequestsKept s) (hclient : s'.client = s.client)
    (hs : WorkerEffect s s') : Roused s' where
  released k hk := by
    have hk₀ : StopReleased k s := by rwa [StopReleased, hclient] at hk
    intro hb
    rcases hs.stop_of_block hb with hdown | hsame
    · rcases (hk₀.elim (hkept k _) (hkept k _) : Stopped s) with hw | ⟨hup, _⟩
      · rw [hs.finished hw] at hb
        cases hb
      · cases hup.symm.trans hdown
    · exact h.released k hk₀ (hsame ▸ hb)
  joining k hk hmem := by
    rw [hclient] at hk
    rcases hs.asleep hmem with hmem₀ | hb
    · exact h.joining k hk hmem₀
    · exact h.released k (.inr hk) hb

variable [Inhabited T]

theorem Roused.clientStep (h : Roused s) (hwakes : Wakes s) (hat : ∀ t, At t s)
    (hs : ClientStep k s s') (hworker : s'.worker = s.worker) (hstep : clientStep s k o = some s') :
    Roused s' where
  released j hj := by
    rw [hworker]
    by_cases hjk : j = k
    · subst hjk
      rcases hj with hj | hj
      · cases clientStep_stopMove hstep hj with
        | notify hpc =>
          -- The call owns the mutex up to this step.
          have hpcAt : ClientPcAt j s (s.client j) := hat (.client j)
          rw [hpc] at hpcAt
          exact not_block_of_owns (hat .worker) hpcAt
      · cases clientStep_stopMove hstep hj with
        | join hpc => exact h.released j (.inl hpc)
    · exact h.released j (by rwa [StopReleased, hs.others hjk] at hj)
  joining j hj := by
    by_cases hjk : j = k
    · subst hjk
      cases clientStep_stopMove hstep hj with
      | join hpc =>
        refine (clientStep_announced (r := .stop) hwakes.only hstep (hpc ▸ trivial)).resolve_left ?_
        rw [hj]
        exact id
    · rw [hs.others hjk] at hj
      exact fun hmem => h.joining j hj (hs.effect.condition hmem)

/-! ## Runs -/

variable {policy : AsyncSchedulingPolicy}

/-- Runs in which no reset takes a stop request back, as long as nothing goes wrong. -/
def Stopping (s : State κ T E) (t : Thread κ) (o : Oracle κ T E) : Prop :=
  KeepingRequests s t o ∧ Faultless s t o

instance (s : State κ T E) (t : Thread κ) (o : Oracle κ T E) : Decidable (Stopping s t o) :=
  inferInstanceAs (Decidable (_ ∧ _))

theorem reachable_roused (h : Reachable (startedHandler κ T E policy) Stopping s) : Roused s := by
  refine h.invariant ?_ ?_
  · rintro s ⟨params, pauseThread, previousTime, _, rfl⟩
    refine ⟨fun k hk => ?_, fun k hk => ?_⟩
    · rcases hk with hk | hk <;> cases hk
    · cases hk
  · intro s t o s' hr hroused hp hs
    obtain ⟨hfacts, hkept⟩ := reachable_requestsKept (hr.mono fun _ _ _ hp => hp.1)
    have hwakes := (reachable_wakes (hr.mono fun _ _ _ hp => hp.1.1)).2
    obtain ⟨_, hmove⟩ := hfacts.step (fun _ _ _ hp => hp.1.1) (fun _ => setsUp_of_running) hr hp hs
    cases hmove with
    | worker hclient heffect => exact hroused.workerStep hkept hclient heffect
    | client k hstep hw hno hcs => exact hroused.clientStep hwakes hfacts.at_ hstep hw hcs

theorem stop_or_finished (h : Reachable (startedHandler κ T E policy) Stopping s)
    (hjoin : s.client k = .stop .join) : s.worker = .finished ∨ s.stopAsyncCallback = true :=
  (((reachable_requestsKept (h.mono fun _ _ _ hp => hp.1)).2 k _ hjoin : Stopped s)).imp id And.left

/-- **`stop_thread` returns.**  While a call of it is in its `join`, the worker is awake and makes at most
twelve more steps; if it cannot move, it waits for the mutex of another thread, or it has finished and
the call can return. -/
theorem stop_ends (h : Reachable (startedHandler κ T E policy) Stopping s)
    (hjoin : s.client k = .stop .join) :
    ¬ Sleeping s ∧
      (∀ movers s', Proceeds (startedHandler κ T E policy)
        (During (fun s => s.client k = .stop .join) Stopping) s movers s' →
        movers.count .worker ≤ 12) ∧
      ((∀ o, step .worker o s = none) →
        (AtLock .worker s ∧ ∃ u, s.asyncMtx = some u ∧ u ≠ .worker) ∨
          (s.worker = .finished ∧ ∃ o s', step (.client k) o s = some s')) := by
  refine ⟨fun hsleep => (reachable_roused h).joining k hjoin hsleep.2, fun movers s' hrun => ?_,
    fun hblocked => ?_⟩
  · have hle := hrun.countP_add_rank_le (I := Reachable (startedHandler κ T E policy) Stopping)
      (fun s => s.worker.leftToStop) (· == .worker) h ?_
    · have hbound := s.worker.leftToStop_le
      rw [List.count_eq_countP]
      omega
    · intro s u o s' hr hp hs
      refine ⟨hr.step hp.2 hs, ?_⟩
      rw [beq_iff_eq]
      have hs : step u o s = some s' := hs
      have hmove := running_step (hr.mono fun _ _ _ hp => ⟨hp.1.1, hp.2⟩) ⟨hp.2.1.1, hp.2.2⟩ hs
      cases hmove with
      | worker hclient heffect =>
        refine ⟨fun _ => ?_, fun hne => absurd rfl hne⟩
        have hstep := workerStep_of_step hs
        rcases stop_or_finished hr hp.1 with hw | hup
        · simp [workerStep, hw] at hstep
        · exact workerStep_leftToStop hstep hup (hp.2.2 s' hs)
      | client j hstep hw hno hcs =>
        refine ⟨?_, fun _ => (congrArg WorkerPc.leftToStop hw).le⟩
        rintro ⟨⟩
  · have hr : Reachable (startedHandler κ T E policy) Running s :=
      h.mono fun _ _ _ hp => ⟨hp.1.1, hp.2⟩
    rcases blocked_cases hr hblocked with hlock | ⟨_, j, hj, _⟩ | ⟨_, hfinished⟩
    · exact .inl hlock
    · cases hj
    · refine .inr ⟨hfinished, step_enabled hr ?_ ?_ ?_⟩
      · intro hlock
        simp [AtLock, hjoin] at hlock
      · rintro ⟨hne, _⟩
        exact hne hfinished
      · rintro ⟨⟩

end Steps

/-- The worker is stopped where it sleeps. -/
def stoppedAsleep : List (Thread Bool × Oracle Bool Nat Unit) :=
  List.replicate 6 (.worker, { callback := .ok 0 }) ++
    List.replicate 6 (.client true, { call := .stop, callback := .ok 0 })

theorem stop_ends_asleep :
    ∃ s : State Bool Nat Unit,
      Reachable (startedHandler Bool Nat Unit .synchronized) Stopping s ∧
        s.client true = .stop .join ∧ s.worker.waitPc? = some .blocked ∧ ¬ Sleeping s ∧
        ∀ movers s', Proceeds (startedHandler Bool Nat Unit .synchronized)
          (During (fun s => s.client true = .stop .join) Stopping) s movers s' →
          movers.count .worker ≤ 12 := by
  obtain ⟨s, hs, hp⟩ := exists_reachable_of_exec
    (startedHandler Bool Nat Unit .synchronized) Stopping stoppedAsleep (started {} true 0)
    (fun s => s.client true = .stop .join ∧ s.worker.waitPc? = some .blocked)
    ⟨_, _, _, rfl, rfl⟩ (by decide)
  obtain ⟨hjoin, hblocked⟩ : s.client true = .stop .join ∧ s.worker.waitPc? = some .blocked := by
    simpa using hp
  obtain ⟨hawake, hbound, _⟩ := stop_ends hs hjoin
  exact ⟨s, hs, hjoin, hblocked, hawake, hbound⟩

end AsyncFunctionHandler
