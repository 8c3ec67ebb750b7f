import RealtimeTools.AsyncHandler.StopRequest
import RealtimeTools.AsyncHandler.TriggerPaths

/-!
# Pausing as a barrier

With the `DETACHED` policy `pause_execution` raises `pause_thread_` without the mutex and then passes
through an empty critical section.  From there on the worker is not at work: it can only have got past
its wait by a stop, and a stop is tested once more before the callback is invoked.
-/

open Interleaving

namespace AsyncFunctionHandler

variable {κ T E : Type} {s s' : State κ T E} {k : κ} {o : Oracle κ T E}

/-- A call of `pause_execution` in client `k` has returned, and nobody has executed the resume store
of `trigger_async_callback` since the store of that call. -/
def PausedSince (k : κ) (history : List (Event κ T E)) : Prop :=
  ∃ before after, history = before ++ .paused k :: after ∧ (∀ j, .resumed j ∉ after) ∧
    ∃ result, .returned k result ∈ after

/-- The callback is running, or the worker is on the way to invoke it; `stop` is the flag it tests
on that way. -/
def WorkerPc.atWork (stop : Bool) : WorkerPc T E → Bool
  | .loop _ .testStop => !stop
  | .loop _ .measure | .loop _ .invoke | .loop _ .inCallback => true
  | _ => false

def AtWork (s : State κ T E) : Prop := s.worker.atWork s.stopAsyncCallback = true

/-- What a pause of client `k` that nobody has resumed is good for; `after` is what has happened since
its store. -/
structure PauseKept (k : κ) (after : List (Event κ T E)) (s : State κ T E) : Prop where
  paused : s.pauseThread = true
  inCall : (∀ result, .returned k result ∉ after) →
    s.client k = .pause .lock ∨ s.client k = .pause .unlock
  barrier : (∃ result, .returned k result ∈ after) → ¬ AtWork s

def PausesKept (s : State κ T E) : Prop :=
  ∀ k before after, s.history = before ++ .paused k :: after → (∀ j, .resumed j ∉ after) →
    PauseKept k after s

/-! ## The worker -/

theorem AtWork.owns (hat : At .worker s) (h : AtWork s) : Owns .worker s := by
  have hpc : WorkerPcAt s s.worker := hat.1
  unfold AtWork at h
  cases hw : s.worker with
  | start | prologue pc | finished => rw [hw] at h; cases h
  | loop site pc =>
    rw [hw] at hpc h
    cases pc with
    | testStop | measure | invoke | inCallback => exact hpc.1
    | _ => cases h

/-- A worker that finds nothing to do gets past its wait only by a stop, which it tests once more. -/
theorem QuietMove.not_atWork {pc pc' : WorkerPc T E} (h : QuietMove s pc pc')
    (hrest : ∀ site : WaitSite, pc = site.pc .loadFirst → Resting site.kind s)
    (hnot : pc.atWork s.stopAsyncCallback = false) : pc'.atWork s.stopAsyncCallback = false := by
  cases h with
  | firstTrue site hr => exact absurd (hrest site rfl) hr
  | stopTrue site hs =>
    rw [hs]
    cases site <;> rfl
  | firstFalse site hr | stopFalse site hs => cases site <;> rfl
  | running site hs =>
    rw [hs] at hnot
    cases hnot
  | _ => rfl

theorem WorkerEffect.not_atWork [DecidableEq κ] (h : WorkerEffect s s')
    (hrest : ∀ site : WaitSite, s.worker = site.pc .loadFirst → Resting site.kind s)
    (hnot : ¬ AtWork s) : ¬ AtWork s' := by
  unfold AtWork at hnot ⊢
  rw [Bool.not_eq_true] at hnot ⊢
  rw [h.stop_kept]
  cases h with
  | quiet hpc _ _ => exact hpc.not_atWork hrest hnot
  | fault hpc _ _ => rwa [hpc]
  | lock site _ hpc' _ _ _ | wake site _ hpc' _ _ => rw [hpc']; cases site <;> rfl
  | block site _ hpc' _ _ _ _ => rw [hpc']; cases site <;> rfl
  | storeReturn site _ _ hpc' _ _ _ _ | storeException site _ _ hpc' _ _ _ _ =>
    rw [hpc']
    cases site <;> rfl
  | measure _ hpc _ _ _ _ | invoke _ hpc _ _ _ _ _ =>
    rw [hpc] at hnot
    cases hnot
  | prologueUnlock _ hpc' _ _ _ | readPrevious _ _ hpc' _ _ | callbackReturned _ _ _ hpc' _ _ _ _
  | callbackThrew _ _ _ hpc' _ _ _ _ | clear _ _ hpc' _ _ _ _ | clearStopped _ _ hpc' _ _ _
  | unlock _ _ hpc' _ _ _ _ | notifyAll _ _ hpc' _ _ => rw [hpc']; rfl

/-- Under `DETACHED` a paused worker finds nothing to do. -/
theorem resting_of_paused (hfollows : s.worker.Follows .detached) (hpause : s.pauseThread = true)
    (site : WaitSite) (hpc : s.worker = site.pc .loadFirst) : Resting site.kind s := by
  rw [hpc] at hfollows
  cases site with
  | prologue => exact hpause
  | loop site =>
    cases site with
    | synchronized => cases hfollows
    | detached => exact hpause

theorem WorkerEffect.pauseThread [DecidableEq κ] (h : WorkerEffect s s') :
    s'.pauseThread = s.pauseThread := by
  cases h <;> rename_i hm _ <;> rw [hm]

/-! ## The clients -/

section Steps

variable [DecidableEq κ] [Inhabited T]

/-- A client does not put the worker to work: the stop flag is lowered only under the mutex. -/
theorem ClientEffect.not_atWork (h : ClientEffect k s s') (hat : At .worker s)
    (hj : s.worker ≠ .finished → s.joinable = true) (hworker : s'.worker = s.worker)
    (hnot : ¬ AtWork s) : ¬ AtWork s' := by
  intro hwork
  unfold AtWork at hwork
  rw [hworker] at hwork
  have hpc : WorkerPcAt s s.worker := hat.1
  apply hnot
  unfold AtWork
  cases hw : s.worker with
  | start | prologue pc | finished => rw [hw] at hwork; cases hwork
  | loop site pc =>
    rw [hw] at hpc hwork
    cases pc with
    | testStop =>
      have hdown : s'.stopAsyncCallback = false := by
        simpa [WorkerPc.atWork] using hwork
      have hkept := (h.worker_owns hpc.1 (hj (by simp [hw]))).2.2 hdown
      rw [hkept]
      rfl
    | measure | invoke | inCallback => rfl
    | _ => cases hwork

/-- `pause_thread_` falls only by the store of a resume. -/
theorem ClientEffect.pauseThread (h : ClientEffect k s s') (hno : ∀ call, s.client k ≠ .init call)
    (hpause : s.pauseThread = true) :
    s'.pauseThread = true ∨ s'.history = s.history ++ [.resumed k] := by
  cases h with
  | init call hpc _ _ => exact absurd hpc (hno call)
  | storeResume _ _ _ hh => exact .inr hh
  | storePause hm _ => exact .inl (by rw [hm])
  | _ =>
    rename_i hm _
    exact .inl (by rw [hm]; exact hpause)

/-- What a step of client `k` in a pause does, from the store on. -/
theorem clientStep_pausing (h : clientStep s k o = some s')
    (hpc : s.client k = .pause .lock ∨ s.client k = .pause .unlock) :
    (s.client k = .pause .lock ∧ s.asyncMtx = none ∧ s'.client k = .pause .unlock ∧
      s'.history = s.history) ∨
    (s.client k = .pause .unlock ∧ s'.history = s.history ++ [.returned k (.bool true)]) := by
  rcases hpc with hpc | hpc
  · simp only [clientStep, hpc] at h
    obtain ⟨hfree, h⟩ := Option.ite_none_right_eq_some.mp h
    obtain rfl := Option.some.inj h
    exact .inl ⟨hpc, hfree, Function.update_self k _ _, rfl⟩
  · simp only [clientStep, hpc] at h
    obtain rfl := Option.some.inj h
    exact .inr ⟨hpc, rfl⟩

/-- The program points of the two stores that raise `pause_thread_`. -/
def ClientPc.pauses : ClientPc T → Bool
  | .pause .storePauseSynchronized | .pause .storePause => true
  | _ => false

/-- Only the stores of `pause_execution` record a pause. -/
theorem clientStep_records_pause {j : κ} (h : clientStep s k o = some s')
    (hh : s'.history = s.history ++ [.paused j]) : j = k ∧ (s.client k).pauses = true := by
  obtain ⟨rfl, hpc | hpc⟩ := clientStep_records h hh
  · rw [hpc]
    exact ⟨rfl, rfl⟩
  · rw [hpc]
    exact ⟨rfl, rfl⟩

/-! ## Runs -/

omit [Inhabited T] in
theorem PauseKept.workerEffect {after after' : List (Event κ T E)} (h : PauseKept k after s)
    (hfacts : Started .detached running s) (hclient : s'.client = s.client)
    (hs : WorkerEffect s s')
    (hafter : after' = after ∨ ∃ e : Event κ T E, e.client? = none ∧ after' = after ++ [e]) :
    PauseKept k after' s' where
  paused := hs.pauseThread.trans h.paused
  inCall hnone := by
    rw [hclient]
    refine h.inCall fun result hmem => hnone result ?_
    rcases hafter with rfl | ⟨e, _, rfl⟩
    · exact hmem
    · exact List.mem_append_left _ hmem
  barrier := by
    rintro ⟨result, hmem⟩
    refine hs.not_atWork (resting_of_paused hfacts.steady.worker h.paused) (h.barrier ⟨result, ?_⟩)
    rcases hafter with rfl | ⟨e, he, rfl⟩
    · exact hmem
    · rcases List.mem_append.mp hmem with hmem | hmem
      · exact hmem
      · obtain rfl := List.mem_singleton.mp hmem
        cases he

theorem PauseKept.clientStep {j : κ} {after after' : List (Event κ T E)}
    (h : PauseKept j after s) (hfacts : Started .detached running s) (hs : ClientStep k s s')
    (hworker : s'.worker = s.worker) (hno : NotSettingUp k s) (hstep : clientStep s k o = some s')
    (hafter : (s'.history = s.history ∧ after' = after) ∨
      ∃ e : Event κ T E, e.client? = some k ∧ s'.history = s.history ++ [e] ∧ after' = after ++ [e])
    (hresumed : ∀ i, .resumed i ∉ after') : PauseKept j after' s' where
  paused := by
    rcases hs.effect.pauseThread hno.not_init h.paused with hp | hh
    · exact hp
    · rcases hafter with ⟨hh', _⟩ | ⟨e, _, hh', rfl⟩
      · simp [hh'] at hh
      · obtain rfl : e = .resumed k := by simpa [hh'] using hh
        exact absurd (List.mem_append_right _ (List.mem_singleton_self _)) (hresumed k)
  inCall hnone := by
    have hin := h.inCall fun result hmem => hnone result (by
      rcases hafter with ⟨_, rfl⟩ | ⟨e, _, _, rfl⟩
      · exact hmem
      · exact List.mem_append_left _ hmem)
    by_cases hjk : j = k
    · subst hjk
      rcases clientStep_pausing hstep hin with ⟨_, _, hpc', _⟩ | ⟨_, hh⟩
      · exact .inr hpc'
      · rcases hafter with ⟨hh', _⟩ | ⟨e, _, hh', rfl⟩
        · simp [hh'] at hh
        · obtain rfl : e = .returned j (.bool true) := by simpa [hh'] using hh
          exact absurd (List.mem_append_right _ (List.mem_singleton_self _)) (hnone _)
    · rwa [hs.others hjk]
  barrier := by
    rintro ⟨result, hmem⟩
    apply hs.effect.not_atWork (hfacts.at_ .worker) (hfacts.at_ .worker).2 hworker
    by_cases hold : ∃ result, .returned j result ∈ after
    · exact h.barrier hold
    -- The call returns with this step, so it still owns the mutex.
    · rcases hafter with ⟨_, rfl⟩ | ⟨e, he, hh, rfl⟩
      · exact absurd ⟨result, hmem⟩ hold
      · have hlast : e = .returned j result := by
          rcases List.mem_append.mp hmem with hmem | hmem
          · exact absurd ⟨result, hmem⟩ hold
          · exact (List.mem_singleton.mp hmem).symm
        subst hlast
        obtain rfl : j = k := by simpa [Event.client?] using he
        have hin := h.inCall fun result hmem => hold ⟨result, hmem⟩
        rcases clientStep_pausing hstep hin with ⟨_, _, _, hh'⟩ | ⟨hpc, _⟩
        · simp [hh'] at hh
        · have hat : ClientPcAt j s (s.client j) := hfacts.at_ (.client j)
          rw [hpc] at hat
          have hown : Owns (.client j) s := hat
          intro hwork
          cases hown.symm.trans (hwork.owns (hfacts.at_ .worker))

/-- Under `DETACHED` nobody is in the branch of `pause_execution` for the other policy. -/
def NoSynchronizedPause (s : State κ T E) : Prop :=
  ∀ k, s.client k ≠ .pause .storePauseSynchronized

theorem clientStep_noSynchronizedPause (h : clientStep s k o = some s')
    (hpolicy : s.params.schedulingPolicy = .detached) :
    s'.client k ≠ .pause .storePauseSynchronized := by
  intro hpc'
  cases clientStep_call h with
  | begin _ hentry _ =>
    rw [hpc'] at hentry
    cases hc : o.call <;> rw [hc] at hentry <;> cases hentry
  | finish _ _ hidle _ => cases hidle.symm.trans hpc'
  | goOn hcall _ =>
    rw [hpc'] at hcall
    cases hpc : s.client k with
    | pause pc =>
      simp only [clientStep, hpc] at h
      cases pc with
      | testPolicy =>
        obtain rfl := Option.some.inj h
        simp [hpolicy] at hpc'
      | lock =>
        obtain ⟨_, h⟩ := Option.ite_none_right_eq_some.mp h
        obtain rfl := Option.some.inj h
        simp at hpc'
      | testRunning =>
        obtain rfl := Option.some.inj h
        rw [State.client_goto] at hpc'
        split at hpc' <;> cases hpc'
      | _ =>
        obtain rfl := Option.some.inj h
        simp [State.returnWith] at hpc'
    | wait pausing pc =>
      simp only [clientStep, hpc] at h
      cases pc with
      | testRunning =>
        simp only [waitForTriggerCycleToFinish] at h
        split at h <;> obtain rfl := Option.some.inj h <;> simp [State.returnWith] at hpc'
      | lock =>
        obtain ⟨_, h⟩ := Option.ite_none_right_eq_some.mp h
        obtain rfl := Option.some.inj h
        simp at hpc'
      | _ =>
        obtain rfl := Option.some.inj h
        simp [State.returnWith] at hpc'
    | reset starting pc => rw [hpc] at hcall; cases starting <;> cases hcall
    | idle | trigger time period pc | stop pc | start pc | init call => rw [hpc] at hcall; cases hcall

/-- Where a client executes a store of `pause_execution`, and what it leaves behind. -/
theorem clientStep_paused {j : κ} (h : clientStep s k o = some s') (hno : NoSynchronizedPause s)
    (hh : s'.history = s.history ++ [.paused j]) :
    j = k ∧ s'.pauseThread = true ∧ s'.client k = .pause .lock := by
  obtain ⟨rfl, hpauses⟩ := clientStep_records_pause h hh
  cases hpc : s.client j with
  | pause pc =>
    rw [hpc] at hpauses
    simp only [clientStep, hpc] at h
    cases pc with
    | storePauseSynchronized => exact absurd hpc (hno j)
    | storePause =>
      obtain rfl := Option.some.inj h
      exact ⟨rfl, rfl, by simp⟩
    | _ => cases hpauses
  | _ => rw [hpc] at hpauses; cases hpauses

/-- The three parts of the invariant of a handler under `DETACHED`. -/
structure Pausing (s : State κ T E) : Prop where
  kept : PausesKept s
  branch : NoSynchronizedPause s

omit [Inhabited T] in
theorem Pausing.workerEffect (h : Pausing s) (hfacts : Started .detached running s)
    (hclient : s'.client = s.client) (hs : WorkerEffect s s') : Pausing s' where
  kept := by
    intro k before after hsplit hresumed
    rcases hs.history with hh | ⟨e, he, hh⟩
    · rw [hh] at hsplit
      exact (h.kept k before after hsplit hresumed).workerEffect hfacts hclient hs (.inl rfl)
    · rw [hh] at hsplit
      rcases split_concat hsplit with ⟨_, rfl, _⟩ | ⟨earlier, rfl, hold⟩
      · cases he
      · have hearlier : ∀ j, .resumed j ∉ earlier :=
          fun j hmem => hresumed j (List.mem_append_left _ hmem)
        exact (h.kept k before earlier hold hearlier).workerEffect hfacts hclient hs
          (.inr ⟨e, he, rfl⟩)
  branch k := by
    rw [hclient]
    exact h.branch k

theorem Pausing.clientStep (h : Pausing s) (hfacts : Started .detached running s)
    (hs : ClientStep k s s') (hworker : s'.worker = s.worker) (hno : NotSettingUp k s)
    (hstep : clientStep s k o = some s') : Pausing s' where
  kept := by
    intro j before after hsplit hresumed
    rcases hs.effect.history with hh | ⟨e, he, hh⟩
    · rw [hh] at hsplit
      exact (h.kept j before after hsplit hresumed).clientStep hfacts hs hworker hno hstep
        (.inl ⟨hh, rfl⟩) hresumed
    · rw [hh] at hsplit
      rcases split_concat hsplit with ⟨_, rfl, rfl⟩ | ⟨earlier, rfl, hold⟩
      -- The store of this pause.
      · obtain ⟨rfl, hpause, hpc⟩ := clientStep_paused hstep h.branch hh
        exact ⟨hpause, fun _ => .inl hpc, fun ⟨_, hmem⟩ => nomatch hmem⟩
      · have hearlier : ∀ i, .resumed i ∉ earlier :=
          fun i hmem => hresumed i (List.mem_append_left _ hmem)
        exact (h.kept j before earlier hold hearlier).clientStep hfacts hs hworker hno hstep
          (.inr ⟨e, he, hh, rfl⟩) hresumed
  branch j := by
    by_cases hjk : j = k
    · subst hjk
      exact clientStep_noSynchronizedPause hstep hfacts.steady.params
    · rw [hs.others hjk]
      exact h.branch j

end Steps

variable [DecidableEq κ] [Inhabited T]

theorem reachable_pausing (h : Reachable (startedHandler κ T E .detached) (Calling running) s) :
    Started .detached running s ∧ Pausing s := by
  refine started_invariant (fun _ _ _ hp => hp) (fun _ => setsUp_of_running) ?_ ?_ ?_ h
  · intro params pauseThread previousTime _
    exact ⟨fun k before after hsplit => by simp [started, fresh] at hsplit,
      fun k hpc => by cases hpc⟩
  · intro s o s' hfacts _ hI _ hc heffect
    exact hI.workerEffect hfacts hc heffect
  · intro s k o s' hfacts _ hI _ hstep hw hno hcs
    exact hI.clientStep hfacts hstep hw hno hcs

omit [Inhabited T] in
/-- The worker starts an invocation only where it is at work. -/
theorem WorkerEffect.atWork_of_invoked {time : Time} {period : Duration} (h : WorkerEffect s s')
    (hh : s'.history = s.history ++ [.invoked time period]) : AtWork s := by
  cases h with
  | invoke site hpc _ _ _ _ _ =>
    unfold AtWork
    rw [hpc]
    rfl
  | callbackReturned _ _ _ _ _ _ _ hh' | callbackThrew _ _ _ _ _ _ _ hh' => simp [hh'] at hh
  | clear _ _ _ _ _ _ hh' => simp [hh'] at hh
  | _ => rename_i hh'; simp [hh'] at hh

/-- **A pause is a barrier.**  In every run of a handler with the `DETACHED` policy, whatever the
clients call: once a `pause_execution` has returned, and as long as nobody has executed a resume store
since its own store, the callback is not running and no step of the worker starts it. -/
theorem paused_callback_not_invoked
    (h : Reachable (startedHandler κ T E .detached) (Calling running) s)
    (hpaused : PausedSince k s.history) :
    (∀ site, s.worker ≠ .loop site .inCallback) ∧
      ∀ t o s', step t o s = some s' →
        ∀ time period, s'.history ≠ s.history ++ [.invoked time period] := by
  obtain ⟨hfacts, hpausing⟩ := reachable_pausing h
  obtain ⟨before, after, hsplit, hresumed, hreturned⟩ := hpaused
  have hnot : ¬ AtWork s := (hpausing.kept k before after hsplit hresumed).barrier hreturned
  constructor
  · intro site hw
    apply hnot
    unfold AtWork
    rw [hw]
    rfl
  · intro t o s' hs time period hh
    have hsound := (step_sound hfacts.at_ hs).guarantee
    cases t with
    | worker =>
      have heffect := workerStep_effect (workerStep_of_step hs) (hfacts.at_ .worker)
      exact hnot (heffect.atWork_of_invoked hh)
    | client j =>
      have hstep : ClientStep j s s' := hsound
      rcases hstep.effect.history with hh' | ⟨e, he, hh'⟩
      · simp [hh'] at hh
      · obtain rfl : e = .invoked time period := by simpa [hh'] using hh
        cases he

/-- The pause is called while the callback runs, and returns after the worker has released the
mutex. -/
def pausedInCallback : List (Thread Unit × Oracle Unit Nat Unit) :=
  List.replicate 13 (.worker, { callback := .ok 0 }) ++
    List.replicate 4 (.client (), { call := .pause, callback := .ok 0 }) ++
    List.replicate 6 (.worker, { callback := .ok 0 }) ++
    List.replicate 2 (.client (), { callback := .ok 0 })

theorem paused_callback_not_invoked_after_cycle :
    ∃ s : State Unit Nat Unit,
      Reachable (startedHandler Unit Nat Unit .detached) (Calling running) s ∧
        .invoked 0 0 ∈ s.history ∧ PausedSince () s.history ∧
        ∀ site, s.worker ≠ .loop site .inCallback := by
  obtain ⟨s, hs, hp⟩ := exists_reachable_of_exec (startedHandler Unit Nat Unit .detached)
    (Calling running) pausedInCallback
    (started { schedulingPolicy := .detached, clock := true, execRate := 100 } false 0)
    (fun s => s.history = [.invoked 0 0, .called () .pause, .paused (), .callbackReturned 0,
      .cycleEnded, .returned () (.bool true)])
    ⟨_, _, _, rfl, rfl⟩ (by decide)
  have hhistory : s.history = [.invoked 0 0, .called () .pause, .paused (), .callbackReturned 0,
      .cycleEnded, .returned () (.bool true)] := by
    simpa using hp
  have hpaused : PausedSince () s.history := by
    refine ⟨[.invoked 0 0, .called () .pause],
      [.callbackReturned 0, .cycleEnded, .returned () (.bool true)], hhistory, ?_, .bool true, ?_⟩
    all_goals simp
  exact ⟨s, hs, by simp [hhistory], hpaused, (paused_callback_not_invoked hs hpaused).1⟩

end AsyncFunctionHandler
