import RealtimeTools.AsyncHandler.Worker

/-!
# Calls of the clients

A step of a client begins a call, goes on with one, or returns from it.  So a run in which the
clients only begin certain calls is one in which they only ever are in these calls; without `init`
and `start_thread` among them the handler keeps the parameters it was started with.
-/

open Interleaving

namespace AsyncFunctionHandler

variable {κ T E : Type} {s s' : State κ T E} {k : κ} {o : Oracle κ T E}

/-- The public call a client is in. -/
def ClientPc.call? : ClientPc T → Option Call
  | .idle => none
  | .trigger time period _ => some (.trigger time period)
  | .wait pausing _ => some (if pausing then .pause else .wait)
  | .pause _ => some .pause
  | .reset starting _ => some (if starting then .start else .reset)
  | .stop _ => some .stop
  | .start _ => some .start
  | .init call => some (.init call)

@[simp] theorem call?_entry (call : Call) : (call.entry : ClientPc T).call? = some call := by
  cases call <;> rfl

theorem call?_eq_none {pc : ClientPc T} : pc.call? = none ↔ pc = .idle := by
  cases pc <;> simp [ClientPc.call?]

theorem call?_eq_trigger {pc : ClientPc T} {time : Time} {period : Duration}
    (h : pc.call? = some (.trigger time period)) : ∃ triggerPc, pc = .trigger time period triggerPc := by
  cases pc with
  | trigger time' period' pc =>
    obtain ⟨rfl, rfl⟩ : time' = time ∧ period' = period := by simpa [ClientPc.call?] using h
    exact ⟨pc, rfl⟩
  | wait pausing pc => cases pausing <;> cases h
  | reset starting pc => cases starting <;> cases h
  | idle | pause pc | stop pc | start pc | init call => cases h

/-- The start and the end of a call. -/
def Event.IsBoundary : Event κ T E → Prop
  | .called _ _ | .returned _ _ => True
  | _ => False

/-- The client an event belongs to. -/
def Event.client? : Event κ T E → Option κ
  | .called k _ | .returned k _ | .predicate k _ | .accepted k _ _ | .paused k | .resumed k
  | .resumeTime k _ | .reset k => some k
  | .invoked _ _ | .callbackReturned _ | .callbackThrew _ | .cycleEnded => none

/-- The program points where a call returns or throws, and its result there. -/
inductive Returns (s : State κ T E) : ClientPc T → Result T E → Prop
  | notInitialized (time : Time) (period : Duration) :
      Returns s (.trigger time period .testInitialized) (.threw (.runtimeError notInitializedText))
  | rethrown (time : Time) (period : Duration) (e : E) (he : s.asyncExceptionPtr = some e) :
      Returns s (.trigger time period .rethrow) (.threw (.callback e))
  | notStarted (time : Time) (period : Duration) :
      Returns s (.trigger time period .testRunning) (.threw (.runtimeError notStartedText))
  | triggered (time : Time) (period : Duration) (status : Bool) :
      Returns s (.trigger time period (.loadReturn status false))
        (.pair status s.asyncCallbackReturn)
  | released (time : Time) (period : Duration) (status : Bool) (value : T) :
      Returns s (.trigger time period (.release status value)) (.pair status value)
  | unwound (time : Time) (period : Duration) :
      Returns s (.trigger time period .unwind) (.threw .predicate)
  | notWaited (pausing : Bool) : Returns s (.wait pausing .testRunning) (.bool false)
  | waited (pausing : Bool) : Returns s (.wait pausing .unlock) (.bool true)
  | paused : Returns s (.pause .unlock) (.bool true)
  | pauseLoaded : Returns s (.pause .loadPause) (.bool s.pauseThread)
  | reset : Returns s (.reset false .unlock) .unit
  | notRunning (hj : s.joinable = false) : Returns s (.stop .testRunning) .unit
  | joined (hw : s.worker = .finished) : Returns s (.stop .join) .unit
  | startRefused :
      Returns s (.start .testInitialized) (.threw (.runtimeError notInitializedText))
  | alreadyStarted : Returns s (.start .testJoinable) .unit
  | spawned : Returns s (.start .spawn) .unit
  | initialized (call : InitCall) : Returns s (.init call) .unit
  | initRefused (call : InitCall) (what : String) :
      Returns s (.init call) (.threw (.runtimeError what))

/-- Client `k` begins a call, goes on with the one it is in, or returns from it. -/
inductive CallStep (k : κ) (call : Call) (s s' : State κ T E) : Prop
  | begin (hidle : s.client k = .idle) (hpc : s'.client k = call.entry)
      (hh : s'.history = s.history ++ [.called k call])
  | goOn (hcall : (s'.client k).call? = (s.client k).call?)
      (hh : s'.history = s.history ∨
        ∃ e : Event κ T E, ¬ e.IsBoundary ∧ s'.history = s.history ++ [e])
  | finish (result : Result T E) (hret : Returns s (s.client k) result) (hpc : s'.client k = .idle)
      (hh : s'.history = s.history ++ [.returned k result])

section Steps

variable [DecidableEq κ]

theorem CallStep.go {call : Call} {pc : ClientPc T}
    (hclient : s'.client = Function.update s.client k pc)
    (hcall : pc.call? = (s.client k).call?) (hh : s'.history = s.history) :
    CallStep k call s s' :=
  .goOn (by rw [hclient, Function.update_self]; exact hcall) (.inl hh)

theorem CallStep.goRecord {call : Call} {pc : ClientPc T} {e : Event κ T E}
    (hclient : s'.client = Function.update s.client k pc)
    (hcall : pc.call? = (s.client k).call?) (he : ¬ e.IsBoundary)
    (hh : s'.history = s.history ++ [e]) : CallStep k call s s' :=
  .goOn (by rw [hclient, Function.update_self]; exact hcall) (.inr ⟨e, he, hh⟩)

theorem CallStep.return {call : Call} {result : Result T E} {pc : ClientPc T}
    (hpc : s.client k = pc) (hret : Returns s pc result)
    (hclient : s'.client = Function.update s.client k .idle)
    (hh : s'.history = s.history ++ [.returned k result]) : CallStep k call s s' :=
  .finish result (hpc ▸ hret) (by rw [hclient, Function.update_self]) hh

theorem lockThen_call {next : ClientPc T} {call : Call} (h : lockThen s k next = some s')
    (hcall : next.call? = (s.client k).call?) : CallStep k call s s' := by
  obtain ⟨_, h⟩ := Option.ite_none_right_eq_some.mp h
  obtain rfl := Option.some.inj h
  exact .go rfl hcall rfl

theorem notifyThen_call {next : ClientPc T} {call : Call} (h : notifyThen s k o next = some s')
    (hcall : next.call? = (s.client k).call?) : CallStep k call s s' := by
  obtain ⟨condition, _, rfl⟩ := Option.map_eq_some_iff.mp h
  exact .go rfl hcall rfl

variable [Inhabited T]

theorem triggerAsyncCallback_call {time : Time} {period : Duration} {pc : TriggerPc T} {call : Call}
    (hpc : s.client k = .trigger time period pc)
    (h : triggerAsyncCallback s k o time period pc = some s') : CallStep k call s s' := by
  have hcall : ∀ pc, (ClientPc.trigger time period pc : ClientPc T).call? = (s.client k).call? := by
    intro pc
    rw [hpc]
    rfl
  cases pc with
  | testInitialized =>
    simp only [triggerAsyncCallback] at h
    split at h <;> obtain rfl := Option.some.inj h
    · exact .go rfl (hcall _) rfl
    · exact .return hpc (.notInitialized time period) rfl rfl
  | testRunning =>
    simp only [triggerAsyncCallback] at h
    split at h <;> obtain rfl := Option.some.inj h
    · exact .go rfl (hcall _) rfl
    · exact .return hpc (.notStarted time period) rfl rfl
  | loadException | testPolicy | loadPause | loadTrigger | storeReturn | unlockResume | tryLock
  | storeTimes | unlock =>
    obtain rfl := Option.some.inj h
    exact .go rfl (hcall _) rfl
  | rethrow =>
    simp only [triggerAsyncCallback] at h
    split at h <;> obtain rfl := Option.some.inj h
    · rename_i e he
      exact .return hpc (.rethrown time period e he) rfl rfl
    · exact .goOn rfl (.inl rfl)
  | lockResume => exact lockThen_call h (hcall _)
  | notifyResume | notify => exact notifyThen_call h (hcall _)
  | storeResume | storeTrigger =>
    obtain rfl := Option.some.inj h
    exact .goRecord rfl (hcall _) id rfl
  | storePrevious =>
    simp only [triggerAsyncCallback] at h
    split at h
    · split at h <;> obtain rfl := Option.some.inj h
      · exact .goRecord rfl (hcall _) id rfl
      · exact .goOn rfl (.inl rfl)
    · obtain rfl := Option.some.inj h
      exact .goOn rfl (.inl rfl)
  | predicate =>
    simp only [triggerAsyncCallback] at h
    split at h <;> obtain rfl := Option.some.inj h
    · exact .goRecord rfl (hcall _) id rfl
    · exact .go rfl (hcall _) rfl
  | loadReturn status ownsLock =>
    cases ownsLock with
    | true =>
      obtain rfl := Option.some.inj h
      exact .go rfl (hcall (.release status s.asyncCallbackReturn)) rfl
    | false =>
      obtain rfl := Option.some.inj h
      exact .return hpc (.triggered time period status) rfl rfl
  | release status value =>
    obtain rfl := Option.some.inj h
    exact .return hpc (.released time period status value) rfl rfl
  | unwind =>
    obtain rfl := Option.some.inj h
    exact .return hpc (.unwound time period) rfl rfl

omit [Inhabited T] in
theorem waitForTriggerCycleToFinish_call {pausing : Bool} {pc : WaitCyclePc} {call : Call}
    (hpc : s.client k = .wait pausing pc)
    (h : waitForTriggerCycleToFinish s k pausing pc = some s') : CallStep k call s s' := by
  have hcall : ∀ pc, (ClientPc.wait pausing pc : ClientPc T).call? = (s.client k).call? := by
    intro pc
    rw [hpc]
    rfl
  cases pc with
  | testRunning =>
    simp only [waitForTriggerCycleToFinish] at h
    split at h <;> obtain rfl := Option.some.inj h
    · exact .go rfl (hcall _) rfl
    · exact .return hpc (.notWaited pausing) rfl rfl
  | lock => exact lockThen_call h (hcall _)
  | loadTrigger | block | blocked =>
    obtain rfl := Option.some.inj h
    exact .go rfl (hcall _) rfl
  | unlock =>
    obtain rfl := Option.some.inj h
    exact .return hpc (.waited pausing) rfl rfl

omit [Inhabited T] in
theorem pauseExecution_call {pc : PausePc} {call : Call} (hpc : s.client k = .pause pc)
    (h : pauseExecution s k pc = some s') : CallStep k call s s' := by
  have hcall : some Call.pause = (s.client k).call? := by rw [hpc]; rfl
  cases pc with
  | testPolicy | testRunning =>
    obtain rfl := Option.some.inj h
    exact .go rfl hcall rfl
  | storePauseSynchronized | storePause =>
    obtain rfl := Option.some.inj h
    exact .goRecord rfl hcall id rfl
  | lock => exact lockThen_call h hcall
  | unlock =>
    obtain rfl := Option.some.inj h
    exact .return hpc .paused rfl rfl
  | loadPause =>
    obtain rfl := Option.some.inj h
    exact .return hpc .pauseLoaded rfl rfl

theorem resetVariables_call {starting : Bool} {pc : ResetPc} {call : Call}
    (hpc : s.client k = .reset starting pc) (h : resetVariables s k starting pc = some s') :
    CallStep k call s s' := by
  have hcall : ∀ pc, (ClientPc.reset starting pc : ClientPc T).call? = (s.client k).call? := by
    intro pc
    rw [hpc]
    rfl
  cases pc with
  | lock => exact lockThen_call h (hcall _)
  | storeStop | storeTrigger | storeTimes | storeReturn =>
    obtain rfl := Option.some.inj h
    exact .go rfl (hcall _) rfl
  | storeException =>
    obtain rfl := Option.some.inj h
    exact .goRecord rfl (hcall _) id rfl
  | unlock =>
    cases starting with
    | true =>
      obtain rfl := Option.some.inj h
      exact .go rfl (hcall .unlock) rfl
    | false =>
      obtain rfl := Option.some.inj h
      exact .return hpc .reset rfl rfl

omit [Inhabited T] in
theorem stopThread_call {pc : StopPc} {call : Call} (hpc : s.client k = .stop pc)
    (h : stopThread s k o pc = some s') : CallStep k call s s' := by
  have hcall : some Call.stop = (s.client k).call? := by rw [hpc]; rfl
  cases pc with
  | testRunning =>
    simp only [stopThread] at h
    split at h <;> obtain rfl := Option.some.inj h
    · exact .go rfl hcall rfl
    · rename_i hj
      exact .return hpc (.notRunning (by simpa using hj)) rfl rfl
  | storeStop | unlock =>
    obtain rfl := Option.some.inj h
    exact .go rfl hcall rfl
  | lock => exact lockThen_call h hcall
  | notify => exact notifyThen_call h hcall
  | join =>
    simp only [stopThread] at h
    split at h
    · rename_i hw
      obtain rfl := Option.some.inj h
      exact .return hpc (.joined hw) rfl rfl
    · cases h

omit [Inhabited T] in
theorem startThread_call {pc : StartPc} {call : Call} (hpc : s.client k = .start pc)
    (h : startThread s k pc = some s') : CallStep k call s s' := by
  have hcall : some Call.start = (s.client k).call? := by rw [hpc]; rfl
  cases pc with
  | testInitialized =>
    simp only [startThread] at h
    split at h <;> obtain rfl := Option.some.inj h
    · exact .go rfl hcall rfl
    · exact .return hpc .startRefused rfl rfl
  | testJoinable =>
    simp only [startThread] at h
    split at h <;> obtain rfl := Option.some.inj h
    · exact .return hpc .alreadyStarted rfl rfl
    · exact .go rfl hcall rfl
  | spawn =>
    obtain rfl := Option.some.inj h
    exact .return hpc .spawned rfl rfl

omit [Inhabited T] in
theorem initStep_call {call : Call} {initCall : InitCall} (hpc : s.client k = .init initCall)
    (h : initStep s k initCall = some s') : CallStep k call s s' := by
  unfold initStep at h
  split at h <;> obtain rfl := Option.some.inj h
  · exact .return hpc (.initialized initCall) rfl rfl
  · exact .return hpc (.initRefused initCall _) rfl rfl

theorem clientStep_call (h : clientStep s k o = some s') : CallStep k o.call s s' := by
  unfold clientStep at h
  cases hpc : s.client k with
  | idle =>
    simp only [hpc, Option.some.injEq] at h
    subst h
    exact .begin hpc (Function.update_self k _ _) rfl
  | trigger time period pc =>
    simp only [hpc] at h
    exact triggerAsyncCallback_call hpc h
  | wait pausing pc =>
    simp only [hpc] at h
    exact waitForTriggerCycleToFinish_call hpc h
  | pause pc =>
    simp only [hpc] at h
    exact pauseExecution_call hpc h
  | reset starting pc =>
    simp only [hpc] at h
    exact resetVariables_call hpc h
  | stop pc =>
    simp only [hpc] at h
    exact stopThread_call hpc h
  | start pc =>
    simp only [hpc] at h
    exact startThread_call hpc h
  | init call =>
    simp only [hpc] at h
    exact initStep_call hpc h

/-! ## What a step adds to the history -/

theorem ClientEffect.history (h : ClientEffect k s s') :
    s'.history = s.history ∨
      ∃ e : Event κ T E, e.client? = some k ∧ s'.history = s.history ++ [e] := by
  have hcall : ∀ {s' : State κ T E}, CallHistory k s s' → s'.history = s.history ∨
      ∃ e : Event κ T E, e.client? = some k ∧ s'.history = s.history ++ [e] := by
    rintro s' (hh | ⟨e, he, hh⟩)
    · exact .inl hh
    · refine .inr ⟨e, ?_, hh⟩
      cases e <;> first | exact congrArg some he | exact he.elim
  cases h with
  | quiet _ hh | unlock _ _ hh | join _ _ hh | spawn _ hh | init _ _ _ hh => exact hcall hh
  | storeTrigger _ _ _ _ _ _ _ hh | storeResume _ _ _ hh | storePrevious _ _ _ _ hh
  | storePause _ hh | resetException _ _ hh => exact .inr ⟨_, rfl, hh⟩
  | lock _ _ hh | storeTimes _ _ _ _ _ hh | storeReturn _ _ hh | storeStop _ _ hh
  | resetStop _ _ hh | resetTrigger _ _ _ _ hh | resetTimes _ _ _ hh | notify _ _ _ _ hh
  | waitCycle _ _ _ hh | wakeCycle _ hh => exact .inl hh

omit [Inhabited T] in
theorem WorkerEffect.history (h : WorkerEffect s s') :
    s'.history = s.history ∨
      ∃ e : Event κ T E, e.client? = none ∧ s'.history = s.history ++ [e] := by
  cases h with
  | invoke _ _ _ _ _ _ hh | callbackReturned _ _ _ _ _ _ _ hh | callbackThrew _ _ _ _ _ _ _ hh
  | clear _ _ _ _ _ _ hh => exact .inr ⟨_, rfl, hh⟩
  | _ => exact .inl ‹_›

theorem ClientEffect.grows (h : ClientEffect k s s') :
    s'.history = s.history ∨ ∃ e, s'.history = s.history ++ [e] :=
  h.history.imp id fun ⟨e, _, hh⟩ => ⟨e, hh⟩

omit [Inhabited T] in
theorem WorkerEffect.grows (h : WorkerEffect s s') :
    s'.history = s.history ∨ ∃ e, s'.history = s.history ++ [e] :=
  h.history.imp id fun ⟨e, _, hh⟩ => ⟨e, hh⟩

/-- A trigger is accepted by the store of its own call. -/
theorem ClientEffect.accepted {j : κ} {time : Time} {period : Duration} (h : ClientEffect k s s')
    (hh : s'.history = s.history ++ [.accepted j time period]) :
    j = k ∧ s.client k = .trigger time period .storeTrigger := by
  have hcall : ¬ CallHistory k s s' := by
    rintro (hh' | ⟨e, he, hh'⟩)
    · simp [hh'] at hh
    · obtain rfl : e = .accepted j time period := by simpa [hh'] using hh
      exact he
  cases h with
  | quiet _ hh' | unlock _ _ hh' | join _ _ hh' | spawn _ hh' | init _ _ _ hh' =>
    exact absurd hh' hcall
  | storeTrigger time' period' _ _ hpc _ _ hh' =>
    obtain ⟨rfl, rfl, rfl⟩ : k = j ∧ time' = time ∧ period' = period := by
      simpa [hh'] using hh
    exact ⟨rfl, hpc⟩
  | _ => rename_i hh'; simp [hh'] at hh

/-- A recorded return is one of the client that steps. -/
theorem clientStep_returned {j : κ} {result : Result T E} (h : clientStep s k o = some s')
    (hh : s'.history = s.history ++ [.returned j result]) :
    j = k ∧ Returns s (s.client k) result ∧ s'.client k = .idle := by
  cases clientStep_call h with
  | begin _ _ hh' => simp [hh'] at hh
  | goOn _ hh' =>
    rcases hh' with hh' | ⟨e, he, hh'⟩
    · simp [hh'] at hh
    · obtain rfl : e = .returned j result := by simpa [hh'] using hh
      exact absurd trivial he
  | finish result' hret hpc hh' =>
    obtain ⟨rfl, rfl⟩ : k = j ∧ result' = result := by simpa [hh'] using hh
    exact ⟨rfl, hret, hpc⟩

/-! ## Runs with some of the calls only -/

/-- Clients begin allowed calls only. -/
def Calling (allowed : Call → Bool) (s : State κ T E) (t : Thread κ) (o : Oracle κ T E) : Prop :=
  match t with
  | .worker => True
  | .client k => ((s.client k).call?.isSome || allowed o.call) = true

instance (allowed : Call → Bool) (s : State κ T E) (t : Thread κ) (o : Oracle κ T E) :
    Decidable (Calling allowed s t o) := by
  cases t
  · exact inferInstanceAs (Decidable True)
  · exact inferInstanceAs (Decidable (_ = true))

/-- Every client is in an allowed call, if in one at all. -/
def InCall (allowed : Call → Bool) (s : State κ T E) : Prop :=
  ∀ k call, (s.client k).call? = some call → allowed call = true

/-- `init` and `start_thread`, the calls that set a handler up. -/
def Call.setsUp : Call → Bool
  | .init _ | .start => true
  | _ => false

/-- A running handler with the policy it was started with. -/
structure Steady (policy : AsyncSchedulingPolicy) (s : State κ T E) : Prop where
  params : s.params.schedulingPolicy = policy
  worker : s.worker.Follows policy

variable {allowed : Call → Bool} {policy : AsyncSchedulingPolicy}

theorem InCall.step {t : Thread κ} (h : InCall allowed s) (hp : Calling allowed s t o)
    (hI : ∀ u, At u s) (hs : step t o s = some s') : InCall allowed s' := by
  have hsound := (step_sound hI hs).guarantee
  cases t with
  | worker =>
    have hclient : s'.client = s.client := hsound.client
    intro k call hcall
    exact h k call (by rwa [hclient] at hcall)
  | client j =>
    have hclient : ClientStep j s s' := hsound
    intro k call hcall
    by_cases hkj : k = j
    · subst hkj
      cases clientStep_call (clientStep_of_step hs) with
      | begin hidle hpc _ =>
        rw [hpc, call?_entry] at hcall
        obtain rfl := Option.some.inj hcall
        simpa [Calling, hidle, ClientPc.call?] using hp
      | goOn hgo _ => exact h k call (hgo ▸ hcall)
      | finish _ _ hpc _ => rw [hpc] at hcall; cases hcall
    · rw [hclient.others hkj] at hcall
      exact h k call hcall

theorem ClientEffect.params (h : ClientEffect k s s') (hno : ∀ call, s.client k ≠ .init call) :
    s'.params = s.params := by
  cases h with
  | init call hpc _ _ => exact absurd hpc (hno call)
  | _ =>
    rename_i hm _
    rw [hm]

omit [Inhabited T] in
/-- The worker stays with the function its policy has sent it to. -/
theorem WorkerEffect.follows (h : WorkerEffect s s') (hsteady : Steady policy s) :
    s'.worker.Follows policy := by
  have hfollows := hsteady.worker
  cases h with
  | quiet hpc hm hh => exact hpc.follows hsteady.params hfollows
  | fault hpc hm hh => exact hpc ▸ hfollows
  | lock site hpc hpc' _ _ _ | wake site hpc hpc' _ _ =>
    rw [hpc] at hfollows
    rw [hpc']
    exact follows_of_wait _ hfollows
  | block site hpc hpc' _ _ _ _ =>
    rw [hpc] at hfollows
    rw [hpc']
    exact follows_of_wait _ hfollows
  | prologueUnlock hpc hpc' _ _ _ | readPrevious _ hpc hpc' _ _ | measure _ hpc hpc' _ _ _ =>
    rw [hpc] at hfollows
    rw [hpc']
    exact hfollows
  | invoke site hpc hpc' _ _ _ _ | storeReturn site _ hpc hpc' _ _ _ _
  | callbackReturned site _ hpc hpc' _ _ _ _ | callbackThrew site _ hpc hpc' _ _ _ _
  | storeException site _ hpc hpc' _ _ _ _ | clear site hpc hpc' _ _ _ _
  | clearStopped site hpc hpc' _ _ _ | unlock site hpc hpc' _ _ _ _
  | notifyAll site hpc hpc' _ _ =>
    rw [hpc] at hfollows
    rw [hpc']
    exact follows_of_loop _ hfollows

/-- Client `k` is not in a call that sets the handler up. -/
def NotSettingUp (k : κ) (s : State κ T E) : Prop :=
  ∀ call, (s.client k).call? = some call → call.setsUp = false

omit [DecidableEq κ] [Inhabited T] in
theorem NotSettingUp.not_init (h : NotSettingUp k s) (call : InitCall) :
    s.client k ≠ .init call := by
  intro hpc
  have hup := h (.init call) (by rw [hpc]; rfl)
  cases hup

theorem ClientStep.worker_eq (hs : ClientStep k s s') (h : NotSettingUp k s) :
    s'.worker = s.worker := by
  rcases hs.worker with hw | ⟨hpc, _, _⟩
  · exact hw
  · have hup := h .start (by rw [hpc]; rfl)
    cases hup

/-- What every state of a run satisfies that starts from a started handler and only makes allowed
calls. -/
structure Started (policy : AsyncSchedulingPolicy) (allowed : Call → Bool) (s : State κ T E) :
    Prop where
  at_ : ∀ t, At t s
  steady : Steady policy s
  calls : InCall allowed s

/-- A step of a running handler, as the invariants see it. -/
inductive RunningStep (o : Oracle κ T E) (s s' : State κ T E) : Thread κ → Prop
  | worker (hclient : s'.client = s.client) (heffect : WorkerEffect s s') :
      RunningStep o s s' .worker
  | client (k : κ) (hs : ClientStep k s s') (hworker : s'.worker = s.worker)
      (hno : NotSettingUp k s) (hstep : clientStep s k o = some s') : RunningStep o s s' (.client k)

theorem Started.step {permit : State κ T E → Thread κ → Oracle κ T E → Prop} {t : Thread κ}
    (hfacts : Started policy allowed s)
    (hallowed : ∀ s t o, permit s t o → Calling allowed s t o)
    (hsetup : ∀ call, allowed call = true → call.setsUp = false)
    (hr : Reachable (startedHandler κ T E policy) permit s) (hp : permit s t o)
    (hs : step t o s = some s') : Started policy allowed s' ∧ RunningStep o s s' t := by
  have hat' := started_at (hr.step hp hs)
  have hcalls := hfacts.calls.step (hallowed s t o hp) hfacts.at_ hs
  have hsound := (step_sound hfacts.at_ hs).guarantee
  cases t with
  | worker =>
    have hstep : WorkerStep s s' := hsound
    have heffect := workerStep_effect (workerStep_of_step hs) (hfacts.at_ .worker)
    have hsteady : Steady policy s' :=
      ⟨hstep.params ▸ hfacts.steady.params, heffect.follows hfacts.steady⟩
    exact ⟨⟨hat', hsteady, hcalls⟩, .worker hstep.client heffect⟩
  | client k =>
    have hstep : ClientStep k s s' := hsound
    -- So the worker is not restarted and the parameters stay.
    have hno : NotSettingUp k s := fun call hc => hsetup call (hfacts.calls k call hc)
    have hw := hstep.worker_eq hno
    have hparams := hstep.effect.params hno.not_init
    have hsteady : Steady policy s' :=
      ⟨hparams ▸ hfacts.steady.params, hw ▸ hfacts.steady.worker⟩
    exact ⟨⟨hat', hsteady, hcalls⟩, .client k hstep hw hno (clientStep_of_step hs)⟩

/-- **Invariants of a running handler.**  `I` holds in every state of a run from a started handler, in
which only allowed calls are made and none of them sets the handler up, if every effect of the worker
and every step of a client keeps it. -/
theorem started_invariant {I : State κ T E → Prop}
    {permit : State κ T E → Thread κ → Oracle κ T E → Prop}
    (hallowed : ∀ s t o, permit s t o → Calling allowed s t o)
    (hsetup : ∀ call, allowed call = true → call.setsUp = false)
    (hstart : ∀ params pauseThread previousTime, params.schedulingPolicy = policy →
      I (started params pauseThread previousTime))
    (hworker : ∀ s o s', Started policy allowed s → Started policy allowed s' → I s →
      permit s .worker o → s'.client = s.client → WorkerEffect s s' → I s')
    (hclient : ∀ s k o s', Started policy allowed s → Started policy allowed s' → I s →
      permit s (.client k) o → ClientStep k s s' → s'.worker = s.worker → NotSettingUp k s →
      clientStep s k o = some s' → I s')
    (h : Reachable (startedHandler κ T E policy) permit s) : Started policy allowed s ∧ I s := by
  refine h.invariant (I := fun s => Started policy allowed s ∧ I s) ?_ ?_
  · rintro s ⟨params, pauseThread, previousTime, hpolicy, rfl⟩
    have hr : Reachable (startedHandler κ T E policy) permit
        (started params pauseThread previousTime) := .start ⟨_, _, _, hpolicy, rfl⟩
    exact ⟨⟨started_at hr, ⟨hpolicy, trivial⟩, fun k call hcall => nomatch hcall⟩,
      hstart _ _ _ hpolicy⟩
  · rintro s t o s' hr ⟨hfacts, hI⟩ hp hs
    obtain ⟨hfacts', hmove⟩ := hfacts.step hallowed hsetup hr hp hs
    cases hmove with
    | worker hc heffect => exact ⟨hfacts', hworker s o s' hfacts hfacts' hI hp hc heffect⟩
    | client k hstep hw hno hcs =>
      exact ⟨hfacts', hclient s k o s' hfacts hfacts' hI hp hstep hw hno hcs⟩

end Steps

/-- Every call but those that set the handler up. -/
def running (call : Call) : Bool := !call.setsUp

theorem setsUp_of_running {call : Call} (h : running call = true) : call.setsUp = false := by
  simpa [running] using h

end AsyncFunctionHandler
