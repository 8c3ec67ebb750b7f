import RealtimeTools.AsyncHandler.Cycles
import RealtimeTools.AsyncHandler.Waiters

/-!
# Stop requests

`stop_thread` raises `stop_async_callback_` without the mutex, and from its empty critical section on
the worker either sees the flag before it invokes the callback again or has left already.
`reset_variables` lowers the same flag under the mutex.  If it does so while the worker still has a
request to follow, `stop_thread` goes on to join a worker that does not know about it.
-/

open Interleaving

namespace AsyncFunctionHandler

variable {κ T E : Type} {s s' : State κ T E} {k : κ}

/-- The worker has passed the stop test and invokes the callback next. -/
def WorkerPc.invoking : WorkerPc T E → Bool
  | .loop _ .measure | .loop _ .invoke => true
  | _ => false

/-- The next step is the store of `reset_variables` that lowers `stop_async_callback_`. -/
def ClientPc.lowering : ClientPc T → Bool
  | .reset _ .storeStop => true
  | _ => false

/-- A call of `stop_thread` in client `k` has released `async_mtx_`. -/
def StopReleased (k : κ) (s : State κ T E) : Prop :=
  s.client k = .stop .notify ∨ s.client k = .stop .join

/-- The worker is blocked, and the predicate it waits for is false. -/
def BlockedForGood (s : State κ T E) : Prop :=
  ∃ site : WaitSite, s.worker = site.pc .blocked ∧ Resting site.kind s ∧
    s.stopAsyncCallback = false

/-- The worker has finished, or will before it invokes the callback again. -/
def Stopped (s : State κ T E) : Prop :=
  s.worker = .finished ∨ (s.stopAsyncCallback = true ∧ s.worker.invoking = false)

/-- A reset does not lower the flag while the worker has a request to follow. -/
def KeepsRequest (s : State κ T E) : Thread κ → Prop
  | .worker => True
  | .client k => (s.client k).lowering = true →
      s.stopAsyncCallback = false ∨ s.worker.hasLeft = true

instance (s : State κ T E) : ∀ t, Decidable (KeepsRequest s t)
  | .worker => inferInstanceAs (Decidable True)
  | .client _ => inferInstanceAs (Decidable (_ → _))

theorem hasLeft_iff {pc : WorkerPc T E} : pc.hasLeft = true ↔ pc = .finished := by
  cases pc <;> simp [WorkerPc.hasLeft]

section Steps

variable [DecidableEq κ] [Inhabited T] {o : Oracle κ T E}

/-! ## Steps of the clients -/

omit [Inhabited T] in
theorem lockThen_stopAsyncCallback {next : ClientPc T} (h : lockThen s k next = some s') :
    s'.stopAsyncCallback = s.stopAsyncCallback := by
  obtain ⟨_, h⟩ := Option.ite_none_right_eq_some.mp h
  obtain rfl := Option.some.inj h
  rfl

omit [Inhabited T] in
theorem notifyThen_stopAsyncCallback {next : ClientPc T} (h : notifyThen s k o next = some s') :
    s'.stopAsyncCallback = s.stopAsyncCallback := by
  obtain ⟨condition, _, rfl⟩ := Option.map_eq_some_iff.mp h
  rfl

theorem triggerAsyncCallback_stopAsyncCallback {time : Time} {period : Duration} {pc : TriggerPc T}
    (h : triggerAsyncCallback s k o time period pc = some s') :
    s'.stopAsyncCallback = s.stopAsyncCallback := by
  cases pc with
  | lockResume => exact lockThen_stopAsyncCallback h
  | notifyResume | notify => exact notifyThen_stopAsyncCallback h
  | storePrevious =>
    simp only [triggerAsyncCallback] at h
    split at h
    · split at h <;> obtain rfl := Option.some.inj h <;> rfl
    · obtain rfl := Option.some.inj h
      rfl
  | testInitialized | rethrow | testRunning | predicate | loadReturn _ _ =>
    simp only [triggerAsyncCallback] at h
    split at h <;> obtain rfl := Option.some.inj h <;> rfl
  | _ =>
    obtain rfl := Option.some.inj h
    rfl

/-- Only `reset_variables` lowers the flag. -/
theorem clientStep_lowers (h : clientStep s k o = some s') (hno : NotSettingUp k s)
    (hnot : (s.client k).lowering = false) (hs : s.stopAsyncCallback = true) :
    s'.stopAsyncCallback = true := by
  unfold clientStep at h
  cases hpc : s.client k <;> simp only [hpc] at h
  case idle =>
    obtain rfl := Option.some.inj h
    exact hs
  case trigger time period pc => exact (triggerAsyncCallback_stopAsyncCallback h).trans hs
  case wait pausing pc =>
    cases pc with
    | lock => exact (lockThen_stopAsyncCallback h).trans hs
    | testRunning =>
      simp only [waitForTriggerCycleToFinish] at h
      split at h <;> obtain rfl := Option.some.inj h <;> exact hs
    | _ =>
      obtain rfl := Option.some.inj h
      exact hs
  case pause pc =>
    cases pc with
    | lock => exact (lockThen_stopAsyncCallback h).trans hs
    | _ =>
      obtain rfl := Option.some.inj h
      exact hs
  case reset starting pc =>
    cases pc with
    | lock => exact (lockThen_stopAsyncCallback h).trans hs
    | storeStop =>
      rw [hpc] at hnot
      cases hnot
    | unlock =>
      simp only [resetVariables] at h
      split at h <;> obtain rfl := Option.some.inj h <;> exact hs
    | _ =>
      obtain rfl := Option.some.inj h
      exact hs
  case stop pc =>
    cases pc with
    | lock => exact (lockThen_stopAsyncCallback h).trans hs
    | notify => exact (notifyThen_stopAsyncCallback h).trans hs
    | storeStop =>
      obtain rfl := Option.some.inj h
      rfl
    | testRunning =>
      simp only [stopThread] at h
      split at h <;> obtain rfl := Option.some.inj h <;> exact hs
    | unlock =>
      obtain rfl := Option.some.inj h
      exact hs
    | join =>
      simp only [stopThread] at h
      split at h
      · obtain rfl := Option.some.inj h
        exact hs
      · cases h
  case start pc =>
    have hup := hno .start (by rw [hpc]; rfl)
    cases hup
  case init call => exact absurd hpc (hno.not_init call)

/-- How client `k` gets to a program point of `stop_thread`. -/
inductive StopMove (k : κ) (s s' : State κ T E) : StopPc → Prop
  | testRunning : StopMove k s s' .testRunning
  | storeStop : StopMove k s s' .storeStop
  | lock (hs : s'.stopAsyncCallback = true) : StopMove k s s' .lock
  | unlock (hpc : s.client k = .stop .lock) (hfree : s.asyncMtx = none) : StopMove k s s' .unlock
  | notify (hpc : s.client k = .stop .unlock) : StopMove k s s' .notify
  | join (hpc : s.client k = .stop .notify) : StopMove k s s' .join

omit [DecidableEq κ] [Inhabited T] in
theorem call?_eq_stop {pc : ClientPc T} (h : pc.call? = some .stop) : ∃ stopPc, pc = .stop stopPc := by
  cases pc with
  | stop pc => exact ⟨pc, rfl⟩
  | wait pausing pc => cases pausing <;> cases h
  | reset starting pc => cases starting <;> cases h
  | idle | trigger time period pc | pause pc | start pc | init call => cases h

theorem clientStep_stopMove {pc' : StopPc} (h : clientStep s k o = some s')
    (hpc' : s'.client k = .stop pc') : StopMove k s s' pc' := by
  cases clientStep_call h with
  | begin _ hentry _ =>
    rw [hpc'] at hentry
    cases hc : o.call <;> rw [hc] at hentry <;> cases hentry
    exact .testRunning
  | finish _ _ hidle _ => cases hidle.symm.trans hpc'
  | goOn hcall _ =>
    rw [hpc'] at hcall
    obtain ⟨pc, hpc⟩ := call?_eq_stop hcall.symm
    simp only [clientStep, hpc] at h
    have hlock : ∀ {next : ClientPc T}, lockThen s k next = some s' →
        s.asyncMtx = none ∧ s'.client k = next := by
      intro next h
      obtain ⟨hfree, h⟩ := Option.ite_none_right_eq_some.mp h
      obtain rfl := Option.some.inj h
      exact ⟨hfree, Function.update_self k _ _⟩
    cases pc with
    | testRunning =>
      simp only [stopThread] at h
      split at h <;> obtain rfl := Option.some.inj h
      · obtain rfl : StopPc.storeStop = pc' := by simpa using hpc'
        exact .storeStop
      · simp [State.returnWith] at hpc'
    | storeStop =>
      obtain rfl := Option.some.inj h
      obtain rfl : StopPc.lock = pc' := by simpa using hpc'
      exact .lock rfl
    | lock =>
      obtain ⟨hfree, hnext⟩ := hlock h
      obtain rfl : StopPc.unlock = pc' := by simpa using hnext.symm.trans hpc'
      exact .unlock hpc hfree
    | unlock =>
      obtain rfl := Option.some.inj h
      obtain rfl : StopPc.notify = pc' := by simpa using hpc'
      exact .notify hpc
    | notify =>
      obtain ⟨condition, _, rfl⟩ := Option.map_eq_some_iff.mp h
      obtain rfl : StopPc.join = pc' := by simpa using hpc'
      exact .join hpc
    | join =>
      simp only [stopThread] at h
      split at h
      · obtain rfl := Option.some.inj h
        simp [State.returnWith] at hpc'
      · cases h

/-! ## The request is followed -/

omit [DecidableEq κ] [Inhabited T] in
theorem QuietMove.invoking {pc pc' : WorkerPc T E} (h : QuietMove s pc pc')
    (hs : s.stopAsyncCallback = true) : pc'.invoking = false := by
  cases h with
  | running site hstop => cases hs.symm.trans hstop
  | firstTrue site _ | firstFalse site _ | stopTrue site _ | stopFalse site _ =>
    cases site <;> rfl
  | _ => rfl

omit [Inhabited T] in
theorem WorkerEffect.invoking (h : WorkerEffect s s') (hs : s.stopAsyncCallback = true)
    (hnot : s.worker.invoking = false) : s'.worker.invoking = false := by
  cases h with
  | quiet hpc _ _ => exact hpc.invoking hs
  | fault hpc _ _ => exact hpc ▸ hnot
  | lock site _ hpc' _ _ _ | wake site _ hpc' _ _ => rw [hpc']; cases site <;> rfl
  | block site _ hpc' _ _ _ _ => rw [hpc']; cases site <;> rfl
  | storeReturn site _ _ hpc' _ _ _ _ | storeException site _ _ hpc' _ _ _ _ =>
    rw [hpc']
    cases site <;> rfl
  | measure _ hpc _ _ _ _ =>
    rw [hpc] at hnot
    cases hnot
  | prologueUnlock _ hpc' _ _ _ | readPrevious _ _ hpc' _ _ | invoke _ _ hpc' _ _ _ _
  | callbackReturned _ _ _ hpc' _ _ _ _ | callbackThrew _ _ _ hpc' _ _ _ _
  | clear _ _ hpc' _ _ _ _ | clearStopped _ _ hpc' _ _ _ | unlock _ _ hpc' _ _ _ _
  | notifyAll _ _ hpc' _ _ => rw [hpc']; rfl

omit [Inhabited T] in
/-- Only one step of the worker invokes the callback. -/
theorem WorkerEffect.invokedArgs (h : WorkerEffect s s')
    (hnot : ∀ site, s.worker ≠ .loop site .invoke) :
    invokedArgs s'.history = invokedArgs s.history := by
  cases h with
  | invoke site hpc _ _ _ _ _ => exact absurd hpc (hnot site)
  | callbackReturned _ _ _ _ _ _ _ hh | callbackThrew _ _ _ _ _ _ _ hh | clear _ _ _ _ _ _ hh =>
    rw [hh]
    simp [Event.invoked?]
  | _ =>
    rename_i hh
    rw [hh]

theorem ClientEffect.invokedArgs (h : ClientEffect k s s') :
    invokedArgs s'.history = invokedArgs s.history := by
  rcases h.history with hh | ⟨e, he, hh⟩
  · rw [hh]
  · have hnone : e.invoked? = none := by
      cases e <;> first | rfl | cases he
    rw [hh, invokedArgs_concat, hnone]
    exact List.append_nil _

omit [DecidableEq κ] [Inhabited T] in
theorem Stopped.not_invoke (h : Stopped s) (site : Loop) : s.worker ≠ .loop site .invoke := by
  intro hpc
  rcases h with hw | ⟨_, hnot⟩
  · cases hw.symm.trans hpc
  · rw [hpc] at hnot
    cases hnot

omit [Inhabited T] in
theorem WorkerEffect.stopped (h : WorkerEffect s s') (hstopped : Stopped s) : Stopped s' :=
  hstopped.imp h.finished fun ⟨hs, hnot⟩ => ⟨h.stop_kept.trans hs, h.invoking hs hnot⟩

/-- The flag stays up until the worker has finished. -/
theorem clientStep_keepsRequest (h : clientStep s k o = some s') (hworker : s'.worker = s.worker)
    (hno : NotSettingUp k s) (hkeeps : KeepsRequest s (.client k))
    (hs : s.worker = .finished ∨ s.stopAsyncCallback = true) :
    s'.worker = .finished ∨ s'.stopAsyncCallback = true := by
  rw [hworker]
  rcases hs with hw | hs
  · exact .inl hw
  · cases hl : (s.client k).lowering with
    | false => exact .inr (clientStep_lowers h hno hl hs)
    | true =>
      rcases hkeeps hl with hdown | hleft
      · cases hs.symm.trans hdown
      · exact .inl (hasLeft_iff.mp hleft)

theorem clientStep_stopped (h : clientStep s k o = some s') (hworker : s'.worker = s.worker)
    (hno : NotSettingUp k s) (hkeeps : KeepsRequest s (.client k)) (hstopped : Stopped s) :
    Stopped s' := by
  have hup := clientStep_keepsRequest h hworker hno hkeeps (hstopped.imp id And.left)
  rcases hstopped with hw | ⟨_, hnot⟩
  · exact .inl (hworker.trans hw)
  · exact hup.imp id fun hs => ⟨hs, hworker ▸ hnot⟩

/-- What a call of `stop_thread` knows about its request. -/
def RequestAt (s : State κ T E) : StopPc → Prop
  | .testRunning | .storeStop => True
  | .lock | .unlock => s.worker = .finished ∨ s.stopAsyncCallback = true
  | .notify | .join => Stopped s

def RequestsKept (s : State κ T E) : Prop := ∀ k pc, s.client k = .stop pc → RequestAt s pc

omit [DecidableEq κ] [Inhabited T] in
theorem RequestAt.mono {pc : StopPc} (h : RequestAt s pc)
    (hup : s.worker = .finished ∨ s.stopAsyncCallback = true →
      s'.worker = .finished ∨ s'.stopAsyncCallback = true)
    (hstopped : Stopped s → Stopped s') : RequestAt s' pc := by
  cases pc with
  | testRunning | storeStop => trivial
  | lock | unlock => exact hup h
  | notify | join => exact hstopped h

omit [DecidableEq κ] [Inhabited T] in
/-- While a client owns the mutex the worker is not on the way to an invocation. -/
theorem not_invoking_of_owns (hat : At .worker s) (hown : Owns (.client k) s) :
    s.worker.invoking = false := by
  have hpc : WorkerPcAt s s.worker := hat.1
  have hnot : ¬ Owns .worker s := fun hworker => nomatch hworker.symm.trans hown
  cases hw : s.worker with
  | start | prologue pc | finished => rfl
  | loop site pc =>
    rw [hw] at hpc
    cases pc with
    | measure | invoke => exact absurd hpc.1 hnot
    | _ => rfl

/-- Every call but those that set the handler up, and no reset overrides a stop request. -/
def KeepingRequests (s : State κ T E) (t : Thread κ) (o : Oracle κ T E) : Prop :=
  Calling running s t o ∧ KeepsRequest s t

instance (s : State κ T E) (t : Thread κ) (o : Oracle κ T E) :
    Decidable (KeepingRequests s t o) :=
  inferInstanceAs (Decidable (_ ∧ _))

variable {policy : AsyncSchedulingPolicy}

theorem reachable_requestsKept
    (h : Reachable (startedHandler κ T E policy) KeepingRequests s) :
    Started policy running s ∧ RequestsKept s := by
  refine started_invariant (I := RequestsKept) (fun _ _ _ hp => hp.1)
    (fun _ => setsUp_of_running) ?_ ?_ ?_ h
  · exact fun _ _ _ _ k pc hpc => nomatch hpc
  · intro s o s' _ _ hkept _ hclient heffect k pc hpc
    rw [hclient] at hpc
    exact (hkept k pc hpc).mono
      (Or.imp heffect.finished fun hs => heffect.stop_kept.trans hs) heffect.stopped
  · intro s k o s' hfacts _ hkept hp hs hworker hno hstep j pc hpc
    have hup := clientStep_keepsRequest hstep hworker hno hp.2
    have hstopped := clientStep_stopped hstep hworker hno hp.2
    by_cases hjk : j = k
    · subst hjk
      cases clientStep_stopMove hstep hpc with
      | testRunning | storeStop => trivial
      | lock hs => exact .inr hs
      | unlock hpc₀ _ => exact hup (hkept j _ hpc₀)
      | join hpc₀ => exact hstopped (hkept j _ hpc₀)
      | notify hpc₀ =>
        -- The call still owns the mutex, so the worker cannot have passed its test.
        have hat : ClientPcAt j s (s.client j) := hfacts.at_ (.client j)
        rw [hpc₀] at hat
        have hnot := not_invoking_of_owns (hfacts.at_ .worker) hat
        exact hstopped ((hkept j _ hpc₀).imp id fun hs => ⟨hs, hnot⟩)
    · rw [hs.others hjk] at hpc
      exact (hkept j pc hpc).mono hup hstopped

/-- **No lost stop request.**  Once a call of `stop_thread` has released `async_mtx_`, the callback is
not invoked again wherever the run goes, and the worker is not blocked on a false predicate while
that call, or any other, is in its `join`. -/
theorem stop_request_followed
    (h : Reachable (startedHandler κ T E policy) KeepingRequests s) (hk : StopReleased k s)
    (hc : Continues (startedHandler κ T E policy) KeepingRequests s s') :
    invokedArgs s'.history = invokedArgs s.history ∧
      ∀ j, s'.client j = .stop .join → ¬ BlockedForGood s' := by
  have hstopped : Stopped s := by
    obtain ⟨_, hkept⟩ := reachable_requestsKept h
    exact hk.elim (hkept k _) (hkept k _)
  obtain ⟨hr', _, hinvoked⟩ := hc.invariant
    (I := fun s₁ => Stopped s₁ ∧ invokedArgs s₁.history = invokedArgs s.history) h
    ⟨hstopped, rfl⟩ (by
      rintro s₁ t o s₂ hr ⟨hstopped, hsame⟩ hp hs
      obtain ⟨hfacts, _⟩ := reachable_requestsKept hr
      obtain ⟨_, hmove⟩ := hfacts.step (fun _ _ _ hp => hp.1) (fun _ => setsUp_of_running) hr hp hs
      cases hmove with
      | worker _ heffect =>
        exact ⟨heffect.stopped hstopped, (heffect.invokedArgs hstopped.not_invoke).trans hsame⟩
      | client j hcs hworker hno hstep =>
        exact ⟨clientStep_stopped hstep hworker hno hp.2 hstopped,
          hcs.effect.invokedArgs.trans hsame⟩)
  refine ⟨hinvoked, fun j hj => ?_⟩
  rintro ⟨site, hpc, _, hdown⟩
  have hstopped' : Stopped s' := (reachable_requestsKept hr').2 j _ hj
  rcases hstopped' with hw | ⟨hs, _⟩
  · rw [hpc] at hw
    cases site <;> cases hw
  · cases hs.symm.trans hdown

end Steps

/-- Client `true` stops the handler up to its `join`; then client `false` triggers it and the worker
runs. -/
def stopFollowed : List (Thread Bool × Oracle Bool Nat Unit) :=
  List.replicate 2 (.worker, { callback := .ok 0 }) ++
    List.replicate 6 (.client true, { call := .stop, callback := .ok 0 })

theorem stop_request_followed_triggered :
    ∃ s s' : State Bool Nat Unit,
      Reachable (startedHandler Bool Nat Unit .synchronized) KeepingRequests s ∧
        StopReleased true s ∧ s'.triggerInProgress = true ∧
        invokedArgs s'.history = invokedArgs s.history := by
  obtain ⟨s, s', hs, hc, hp⟩ := exists_continues_of_exec
    (startedHandler Bool Nat Unit .synchronized) KeepingRequests stopFollowed
    (List.replicate 13 (.client false, { call := .trigger 1 1, callback := .ok 0 }) ++
      List.replicate 3 (.worker, { callback := .ok 0 }))
    (started {} true 0) (fun s s' => s.client true = .stop .join ∧ s'.triggerInProgress = true)
    ⟨_, _, _, rfl, rfl⟩ (by decide)
  obtain ⟨hpc, hbusy⟩ : s.client true = .stop .join ∧ s'.triggerInProgress = true := by
    simpa using hp
  exact ⟨s, s', hs, .inr hpc, hbusy, (stop_request_followed hs (.inr hpc) hc).1⟩

/-- Client `false` is inside `reset_variables` when client `true` raises the flag, and lowers it
before client `true` takes the mutex. -/
def stopOverridden : List (Thread Bool × Oracle Bool Nat Unit) :=
  [(.worker, { callback := .ok 0 }), (.worker, { callback := .ok 0 })] ++
    List.replicate 3 (.client true, { call := .stop, callback := .ok 0 }) ++
    List.replicate 8 (.client false, { call := .reset, callback := .ok 0 }) ++
    List.replicate 3 (.client true, { callback := .ok 0 })

/-- `stop_thread` is in its `join`, a trigger is accepted, and the callback is invoked. -/
theorem stop_request_lost :
    ∃ s s' : State Bool Nat Unit,
      Reachable (startedHandler Bool Nat Unit .synchronized) (Calling running) s ∧
        StopReleased true s ∧
        Continues (startedHandler Bool Nat Unit .synchronized) (Calling running) s s' ∧
        s'.client true = .stop .join ∧ invokedArgs s.history = [] ∧
        invokedArgs s'.history = [(1, 1)] := by
  obtain ⟨s, s', hs, hc, hp⟩ := exists_continues_of_exec
    (startedHandler Bool Nat Unit .synchronized) (Calling running) stopOverridden
    (List.replicate 13 (.client false, { call := .trigger 1 1, callback := .ok 0 }) ++
      List.replicate 4 (.worker, { callback := .ok 0 }))
    (started {} true 0)
    (fun s s' => s.client true = .stop .join ∧ s'.client true = .stop .join ∧
      invokedArgs s.history = [] ∧ invokedArgs s'.history = [(1, 1)])
    ⟨_, _, _, rfl, rfl⟩ (by decide)
  obtain ⟨hpc, hpc', hnone, hone⟩ : s.client true = .stop .join ∧ s'.client true = .stop .join ∧
      invokedArgs s.history = [] ∧ invokedArgs s'.history = [(1, 1)] := by
    simpa using hp
  exact ⟨s, s', hs, .inr hpc, hc, hpc', hnone, hone⟩

end AsyncFunctionHandler
