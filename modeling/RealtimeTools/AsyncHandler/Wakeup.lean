import RealtimeTools.AsyncHandler.Calls

/-!
# No lost wake-up of the worker

The worker waits at three places for one of two predicates, each a disjunction of two atomics.  For
every reason to wake up there is one store that makes it true, and the client that has done the store
still has its own `notify_one` ahead of it.  `stop_async_callback_` is stored before the mutex is
taken; a stop that comes after the worker's test is then held up at the mutex until the worker has
blocked.
-/

open Interleaving

namespace AsyncFunctionHandler

variable {κ T E : Type} {s s' : State κ T E} {k : κ}

/-! ## Reasons to wake up -/

/-- What the two predicates of the worker are made of. -/
inductive Reason
  | trigger
  | resume
  | stop
  deriving DecidableEq

namespace Reason

def Holds (s : State κ T E) : Reason → Prop
  | .trigger => s.triggerInProgress = true
  | .resume => s.pauseThread = false
  | .stop => s.stopAsyncCallback = true

/-- Whether the predicate of a loop looks at it. -/
def Counts (kind : Loop) : Reason → Prop
  | .trigger => kind = .synchronized
  | .resume => kind = .detached
  | .stop => True

/-- Between the store that makes the reason hold and the `notify_one` of the same call. -/
def Announced : Reason → ClientPc T → Prop
  | .trigger, .trigger _ _ .storeTimes | .trigger, .trigger _ _ .unlock
  | .trigger, .trigger _ _ .notify => True
  | .resume, .trigger _ _ .storeReturn | .resume, .trigger _ _ .storePrevious
  | .resume, .trigger _ _ .unlockResume | .resume, .trigger _ _ .notifyResume => True
  | .stop, .stop .lock | .stop, .stop .unlock | .stop, .stop .notify => True
  | _, _ => False

end Reason

namespace WorkerPc

/-- The step of a wait the worker is at. -/
def waitPc? : WorkerPc T E → Option WaitPc
  | .prologue (.wait pc) | .loop _ (.wait pc) => some pc
  | _ => none

/-- The loop whose predicate the worker would wait for. -/
def kind : WorkerPc T E → Loop
  | .loop site _ => site
  | _ => .detached

@[simp] theorem waitPc?_pc (site : WaitSite) (pc : WaitPc) :
    (site.pc pc : WorkerPc T E).waitPc? = some pc := by
  cases site <;> rfl

@[simp] theorem waitPc?_exit (site : WaitSite) : (site.exit : WorkerPc T E).waitPc? = none := by
  cases site <;> rfl

@[simp] theorem kind_pc (site : WaitSite) (pc : WaitPc) :
    (site.pc pc : WorkerPc T E).kind = site.kind := by
  cases site <;> rfl

end WorkerPc

/-- The worker is blocked and no notification has reached it since. -/
def Sleeping (s : State κ T E) : Prop :=
  s.worker.waitPc? = some .blocked ∧ Thread.worker ∈ s.asyncCallbackCondition

/-- Only the sleeping worker is in the condition variable; whatever should wake it is announced, also
a stop that came after its test. -/
structure Wakes (s : State κ T E) : Prop where
  only : s.asyncCallbackCondition ⊆ {Thread.worker}
  blocked : Thread.worker ∈ s.asyncCallbackCondition → s.worker.waitPc? = some .blocked
  announced : Sleeping s → ∀ r : Reason, r.Counts s.worker.kind → r.Holds s →
    ∃ k, r.Announced (s.client k)
  blocking : s.worker.waitPc? = some .block → s.stopAsyncCallback = true →
    ∃ k, s.client k = .stop .lock

section Steps

variable [DecidableEq κ] [Inhabited T] {o : Oracle κ T E}

/-! ## Steps of the clients -/

/-- A reason begins to hold only in a client that will announce it. -/
theorem ClientEffect.holds (h : ClientEffect k s s') (hno : ∀ call, s.client k ≠ .init call)
    (r : Reason) (hr : r.Holds s') : r.Holds s ∨ r.Announced (s'.client k) := by
  cases h with
  | init call hpc _ _ => exact absurd hpc (hno call)
  | storeTrigger time period _ _ _ hpc' hm _ =>
    rw [hpc']
    cases r with
    | trigger => exact .inr trivial
    | resume | stop =>
      simp only [Reason.Holds, hm] at hr
      exact .inl hr
  | storeResume _ hpc' hm _ =>
    obtain ⟨time, period, hpc'⟩ := hpc'
    rw [hpc']
    cases r with
    | resume => exact .inr trivial
    | trigger | stop =>
      simp only [Reason.Holds, hm] at hr
      exact .inl hr
  | storeStop hpc' hm _ =>
    rw [hpc']
    cases r with
    | stop => exact .inr trivial
    | trigger | resume =>
      simp only [Reason.Holds, hm] at hr
      exact .inl hr
  | storePause hm _ | resetStop _ hm _ | resetTrigger _ _ _ hm _ =>
    cases r <;> simp only [Reason.Holds, hm] at hr <;> first | exact .inl hr | cases hr
  | _ =>
    rename_i hm _
    cases r <;> simp only [Reason.Holds, hm] at hr <;> exact .inl hr

/-- A client gives up an announcement only by notifying. -/
theorem clientStep_announced {r : Reason} (honly : s.asyncCallbackCondition ⊆ {Thread.worker})
    (h : clientStep s k o = some s') (hr : r.Announced (s.client k)) :
    r.Announced (s'.client k) ∨ Thread.worker ∉ s'.asyncCallbackCondition := by
  have hlock : ∀ {next : ClientPc T}, lockThen s k next = some s' → s'.client k = next := by
    intro next h
    obtain ⟨_, h⟩ := Option.ite_none_right_eq_some.mp h
    obtain rfl := Option.some.inj h
    exact Function.update_self k _ _
  have hnotify : ∀ {next : ClientPc T}, notifyThen s k o next = some s' →
      Thread.worker ∉ s'.asyncCallbackCondition := by
    intro next h
    obtain ⟨condition, hn, rfl⟩ := Option.map_eq_some_iff.mp h
    exact CondVar.not_mem_of_notifyOne honly hn
  unfold clientStep at h
  -- By the reason, and then by the program points that announce it.
  cases r with
  | trigger =>
    cases hpc : s.client k <;> rw [hpc] at hr <;> try exact hr.elim
    case trigger time period pc =>
      simp only [hpc] at h
      cases pc <;> try exact hr.elim
      case storeTimes | unlock =>
        obtain rfl := Option.some.inj h
        exact .inl (by simp [Reason.Announced])
      case notify => exact .inr (hnotify h)
  | resume =>
    cases hpc : s.client k <;> rw [hpc] at hr <;> try exact hr.elim
    case trigger time period pc =>
      simp only [hpc] at h
      cases pc <;> try exact hr.elim
      case storeReturn | unlockResume =>
        obtain rfl := Option.some.inj h
        exact .inl (by simp [Reason.Announced])
      case storePrevious =>
        simp only [triggerAsyncCallback] at h
        split at h
        · split at h <;> obtain rfl := Option.some.inj h
          · exact .inl (by simp [Reason.Announced])
          · exact .inl (hpc ▸ hr)
        · obtain rfl := Option.some.inj h
          exact .inl (hpc ▸ hr)
      case notifyResume => exact .inr (hnotify h)
  | stop =>
    cases hpc : s.client k <;> rw [hpc] at hr <;> try exact hr.elim
    case stop pc =>
      simp only [hpc] at h
      cases pc <;> try exact hr.elim
      case lock => exact .inl (by rw [hlock h]; trivial)
      case unlock =>
        obtain rfl := Option.some.inj h
        exact .inl (by simp [Reason.Announced])
      case notify => exact .inr (hnotify h)

theorem ClientEffect.condition (h : ClientEffect k s s') :
    s'.asyncCallbackCondition ⊆ s.asyncCallbackCondition := by
  cases h with
  | notify woken condition hn hm _ =>
    rw [hm]
    exact CondVar.notifyOne_subset hn
  | init call _ ha _ =>
    obtain ⟨_, priority, predicate, params, pause, hm⟩ := InitCall.apply_ok ha
    rw [hm]
  | _ =>
    rename_i hm _
    rw [hm]

theorem clientStep_stop_lock (h : clientStep s k o = some s') (hpc : s.client k = .stop .lock) :
    s.asyncMtx = none := by
  simp only [clientStep, hpc] at h
  exact (Option.ite_none_right_eq_some.mp h).1

theorem Wakes.clientStep (h : Wakes s) (hat : At .worker s) (hs : ClientStep k s s')
    (hworker : s'.worker = s.worker) (hno : ∀ call, s.client k ≠ .init call)
    (hstep : clientStep s k o = some s') : Wakes s' where
  only := hs.effect.condition.trans h.only
  blocked hmem := by
    rw [hworker]
    exact h.blocked (hs.effect.condition hmem)
  announced hsleep r hcounts hr := by
    have hsleep₀ : Sleeping s := ⟨hworker ▸ hsleep.1, hs.effect.condition hsleep.2⟩
    -- A reason that begins to hold now is announced by the client that steps.
    rcases hs.effect.holds hno r hr with hr₀ | hann
    · obtain ⟨j, hj⟩ := h.announced hsleep₀ r (hworker ▸ hcounts) hr₀
      by_cases hjk : j = k
      · subst hjk
        exact ⟨j, (clientStep_announced h.only hstep hj).resolve_right fun hn => hn hsleep.2⟩
      · exact ⟨j, by rwa [hs.others hjk]⟩
    · exact ⟨k, hann⟩
  blocking hblock hstop := by
    have hblock₀ : s.worker.waitPc? = some .block := hworker ▸ hblock
    -- The worker holds the mutex, so nobody gets past `stop`'s lock.
    have hown : Owns .worker s := by
      have hpc : WorkerPcAt s s.worker := hat.1
      unfold WorkerPc.waitPc? at hblock₀
      split at hblock₀
      · rename_i hw
        rw [hw] at hpc
        obtain rfl := Option.some.inj hblock₀
        exact hpc.1
      · rename_i hw
        rw [hw] at hpc
        obtain rfl := Option.some.inj hblock₀
        exact hpc.1
      · cases hblock₀
    rcases hs.effect.stopping hstop with hstop₀ | hpc'
    · obtain ⟨j, hj⟩ := h.blocking hblock₀ hstop₀
      by_cases hjk : j = k
      · subst hjk
        cases hown.symm.trans (clientStep_stop_lock hstep hj)
      · exact ⟨j, by rwa [hs.others hjk]⟩
    · exact ⟨k, hpc'⟩

/-! ## Steps of the worker -/

omit [DecidableEq κ] [Inhabited T] in
theorem QuietMove.waitPc? {pc pc' : WorkerPc T E} (h : QuietMove s pc pc') :
    pc.waitPc? ≠ some .blocked ∧ pc'.waitPc? ≠ some .blocked ∧
      (pc'.waitPc? = some .block → s.stopAsyncCallback = false) := by
  cases h with
  | stopFalse site hs => simp [hs]
  | firstTrue site _ | firstFalse site _ | stopTrue site _ => simp
  | running site _ => cases site <;> simp [WorkerPc.waitPc?, Loop.afterTest]
  | _ => simp [WorkerPc.waitPc?]

omit [DecidableEq κ] [Inhabited T] in
/-- Away from the wait there is nothing to wake. -/
theorem Wakes.awake (hnot : Thread.worker ∉ s'.asyncCallbackCondition)
    (honly : s'.asyncCallbackCondition ⊆ {Thread.worker})
    (hblock : s'.worker.waitPc? = some .block → s'.stopAsyncCallback = true →
      ∃ k, s'.client k = .stop .lock) : Wakes s' where
  only := honly
  blocked hmem := absurd hmem hnot
  announced hsleep := absurd hsleep.2 hnot
  blocking := hblock

omit [Inhabited T] in
theorem Wakes.workerStep (h : Wakes s) (hclient : s'.client = s.client)
    (hs : WorkerEffect s s') : Wakes s' := by
  have hout : s.worker.waitPc? ≠ some .blocked → Thread.worker ∉ s.asyncCallbackCondition :=
    fun hne hmem => hne (h.blocked hmem)
  cases hs with
  | quiet hpc hm hh =>
    -- A quiet move reaches `block` only from a test that found no stop.
    obtain ⟨hfrom, _, hblock⟩ := hpc.waitPc?
    have hcond : s'.asyncCallbackCondition = s.asyncCallbackCondition := by rw [hm]
    refine .awake (hcond ▸ hout hfrom) (hcond ▸ h.only) fun hb hstop => ?_
    rw [hm, hblock hb] at hstop
    cases hstop
  | fault hpc hm hh =>
    have hcond : s'.asyncCallbackCondition = s.asyncCallbackCondition := by rw [hm]
    refine ⟨hcond ▸ h.only, fun hmem => ?_, fun hsleep r hcounts hr => ?_, fun hb hstop => ?_⟩
    · rw [hpc]
      exact h.blocked (hcond ▸ hmem)
    · rw [hclient]
      have hsleep₀ : Sleeping s := ⟨hpc ▸ hsleep.1, hcond ▸ hsleep.2⟩
      refine h.announced hsleep₀ r (hpc ▸ hcounts) ?_
      cases r <;> simpa only [Reason.Holds, hm] using hr
    · rw [hclient]
      exact h.blocking (hpc ▸ hb) (by rwa [hm] at hstop)
  | block site hpc hpc' hown hrest hm hh =>
    have hcond : s'.asyncCallbackCondition = s.asyncCallbackCondition.wait .worker := by rw [hm]
    refine ⟨?_, fun _ => ?_, fun _ r hcounts hr => ?_, fun hb => ?_⟩
    · rw [hcond]
      exact CondVar.wait_subset_singleton h.only
    · rw [hpc', WorkerPc.waitPc?_pc]
    · rw [hpc', WorkerPc.kind_pc] at hcounts
      rw [hclient]
      cases r with
      | stop =>
        simp only [Reason.Holds, hm] at hr
        obtain ⟨k, hk⟩ := h.blocking (by rw [hpc, WorkerPc.waitPc?_pc]) hr
        exact ⟨k, by rw [hk]; trivial⟩
      | trigger | resume =>
        -- The first half of the predicate has just been found false.
        simp only [Reason.Holds, hm] at hr
        rw [Reason.Counts] at hcounts
        rw [hcounts] at hrest
        cases hrest.symm.trans hr
    · rw [hpc', WorkerPc.waitPc?_pc] at hb
      cases hb
  | wake site hpc hpc' hm hh =>
    have hcond : s'.asyncCallbackCondition = s.asyncCallbackCondition.wake .worker := by rw [hm]
    refine .awake ?_ ?_ fun hb => ?_
    · rw [hcond]
      exact fun hmem => (CondVar.mem_wake.mp hmem).1 rfl
    · rw [hcond]
      exact CondVar.wake_subset.trans h.only
    · rw [hpc', WorkerPc.waitPc?_pc] at hb
      cases hb
  | lock site hpc hpc' _ hm _ =>
    have hfrom : s.worker.waitPc? ≠ some .blocked := by rw [hpc]; simp
    have hcond : s'.asyncCallbackCondition = s.asyncCallbackCondition := by rw [hm]
    refine .awake (hcond ▸ hout hfrom) (hcond ▸ h.only) fun hb => ?_
    rw [hpc', WorkerPc.waitPc?_pc] at hb
    cases hb
  | storeReturn site _ hpc hpc' _ _ hm _ | storeException site _ hpc hpc' _ _ hm _ =>
    have hfrom : s.worker.waitPc? ≠ some .blocked := by rw [hpc]; simp [WorkerPc.waitPc?]
    have hcond : s'.asyncCallbackCondition = s.asyncCallbackCondition := by rw [hm]
    refine .awake (hcond ▸ hout hfrom) (hcond ▸ h.only) fun hb => ?_
    rw [hpc'] at hb
    cases site <;> cases hb
  | prologueUnlock hpc hpc' _ hm _ | readPrevious _ hpc hpc' hm _ | measure _ hpc hpc' _ hm _
  | invoke _ hpc hpc' _ _ hm _ | callbackReturned _ _ hpc hpc' _ _ hm _
  | callbackThrew _ _ hpc hpc' _ _ hm _ | clear _ hpc hpc' _ _ hm _
  | clearStopped _ hpc hpc' _ hm _ | unlock _ hpc hpc' _ _ hm _ | notifyAll _ hpc hpc' hm _ =>
    have hfrom : s.worker.waitPc? ≠ some .blocked := by rw [hpc]; simp [WorkerPc.waitPc?]
    have hcond : s'.asyncCallbackCondition = s.asyncCallbackCondition := by rw [hm]
    refine .awake (hcond ▸ hout hfrom) (hcond ▸ h.only) fun hb => ?_
    rw [hpc'] at hb
    cases hb

/-! ## Runs -/

theorem reachable_wakes {policy : AsyncSchedulingPolicy}
    (h : Reachable (startedHandler κ T E policy) (Calling running) s) :
    Started policy running s ∧ Wakes s := by
  refine started_invariant (I := Wakes) (fun _ _ _ hp => hp) (fun _ => setsUp_of_running)
    ?_ ?_ ?_ h
  · intro params pauseThread previousTime _
    have hnot : Thread.worker ∉ (∅ : CondVar (Thread κ)) := Finset.notMem_empty _
    exact .awake hnot (Finset.empty_subset _) fun hb => nomatch hb
  · intro s o s' _ _ hwakes _ hclient heffect
    exact hwakes.workerStep hclient heffect
  · intro s k o s' hfacts _ hwakes _ hs hworker hno hstep
    exact hwakes.clientStep (hfacts.at_ .worker) hs hworker hno.not_init hstep

omit [DecidableEq κ] [Inhabited T] in
/-- Which predicate the worker waits for. -/
theorem kind_of_follows {policy : AsyncSchedulingPolicy} {worker : WorkerPc T E} {pc : WaitPc}
    (hpc : worker.waitPc? = some pc) (h : worker.Follows policy) :
    worker.kind = if policy = .synchronized then .synchronized else .detached := by
  cases worker with
  | start | finished => cases hpc
  | prologue pc => exact (if_neg h).symm
  | loop site pc =>
    cases site with
    | synchronized => exact (if_pos h).symm
    | detached => exact (if_neg h).symm

/-- **No lost wake-up.**  While the worker sleeps, the predicate it waits for is false, or some client
is between the store that made it true and its own `notify_one`. -/
theorem sleeping_worker_not_forgotten {policy : AsyncSchedulingPolicy}
    (h : Reachable (startedHandler κ T E policy) (Calling running) s) (hsleep : Sleeping s) :
    (policy = .synchronized →
      (s.triggerInProgress = false ∧ s.stopAsyncCallback = false) ∨
        ∃ k, (s.triggerInProgress = true ∧ Reason.trigger.Announced (s.client k)) ∨
          (s.stopAsyncCallback = true ∧ Reason.stop.Announced (s.client k))) ∧
      (policy ≠ .synchronized →
        (s.pauseThread = true ∧ s.stopAsyncCallback = false) ∨
          ∃ k, (s.pauseThread = false ∧ Reason.resume.Announced (s.client k)) ∨
            (s.stopAsyncCallback = true ∧ Reason.stop.Announced (s.client k))) := by
  obtain ⟨hfacts, hwakes⟩ := reachable_wakes h
  have hannounced := hwakes.announced hsleep
  have hkind := kind_of_follows hsleep.1 hfacts.steady.worker
  have hstop : s.stopAsyncCallback = true → ∃ k, Reason.stop.Announced (s.client k) :=
    hannounced .stop trivial
  refine ⟨fun hpolicy => ?_, fun hpolicy => ?_⟩
  · rw [if_pos hpolicy] at hkind
    cases htrigger : s.triggerInProgress with
    | true =>
      obtain ⟨k, hk⟩ := hannounced .trigger hkind htrigger
      exact .inr ⟨k, .inl ⟨rfl, hk⟩⟩
    | false =>
      cases hs : s.stopAsyncCallback with
      | true =>
        obtain ⟨k, hk⟩ := hstop hs
        exact .inr ⟨k, .inr ⟨rfl, hk⟩⟩
      | false => exact .inl ⟨rfl, rfl⟩
  · rw [if_neg hpolicy] at hkind
    cases hpause : s.pauseThread with
    | false =>
      obtain ⟨k, hk⟩ := hannounced .resume hkind hpause
      exact .inr ⟨k, .inl ⟨rfl, hk⟩⟩
    | true =>
      cases hs : s.stopAsyncCallback with
      | true =>
        obtain ⟨k, hk⟩ := hstop hs
        exact .inr ⟨k, .inr ⟨rfl, hk⟩⟩
      | false => exact .inl ⟨rfl, rfl⟩

end Steps

/-- The worker sleeps, and a trigger has been accepted but not announced yet. -/
def acceptedAsleep : List (Thread Unit × Oracle Unit Nat Unit) :=
  List.replicate 6 (.worker, { callback := .ok 0 }) ++
    List.replicate 10 (.client (), { call := .trigger 1 1, callback := .ok 0 })

theorem sleeping_worker_not_forgotten_accepted :
    ∃ s : State Unit Nat Unit,
      Reachable (startedHandler Unit Nat Unit .synchronized) (Calling running) s ∧ Sleeping s ∧
        s.triggerInProgress = true ∧
        ∃ k, Reason.trigger.Announced (s.client k) ∨ Reason.stop.Announced (s.client k) := by
  obtain ⟨s, hs, hp⟩ := exists_reachable_of_exec
    (startedHandler Unit Nat Unit .synchronized) (Calling running) acceptedAsleep
    (started {} true 0)
    (fun s => (s.worker.waitPc? = some .blocked ∧ Thread.worker ∈ s.asyncCallbackCondition) ∧
      s.triggerInProgress = true) ⟨_, _, _, rfl, rfl⟩ (by decide)
  obtain ⟨hsleep, htrigger⟩ : Sleeping s ∧ s.triggerInProgress = true := by
    simpa [Sleeping] using hp
  rcases (sleeping_worker_not_forgotten hs hsleep).1 rfl with ⟨hfalse, _⟩ | ⟨k, hk | hk⟩
  · cases htrigger.symm.trans hfalse
  · exact ⟨s, hs, hsleep, htrigger, k, .inl hk.2⟩
  · exact ⟨s, hs, hsleep, htrigger, k, .inr hk.2⟩

end AsyncFunctionHandler
