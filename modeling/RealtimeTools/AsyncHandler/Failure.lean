import RealtimeTools.AsyncHandler.Triggers

/-!
# A failed callback is handled before it is run again

`trigger_async_callback` tests `async_exception_ptr_` before it takes the mutex, and a callback may
throw between the two.  In the runs in which no trigger is accepted with an exception stored, the
callback is not run again before a reset, and every trigger that starts after the failed cycle
rethrows.
-/

open Interleaving

namespace AsyncFunctionHandler

variable {κ T E : Type} {s s' : State κ T E} {k : κ} {o : Oracle κ T E}

/-! ## Failures in the history -/

/-- An exception of the callback that has not been reset, and whether its cycle has ended. -/
structure Failure (E : Type) where
  exception : E
  ended : Bool
  deriving DecidableEq

def Event.fail : Option (Failure E) → Event κ T E → Option (Failure E)
  | _, .callbackThrew e => some ⟨e, false⟩
  | failure, .cycleEnded => failure.map fun failure => { failure with ended := true }
  | _, .reset _ => none
  | failure, _ => failure

def failure (history : List (Event κ T E)) : Option (Failure E) := history.foldl Event.fail none

@[simp] theorem failure_concat (history : List (Event κ T E)) (e : Event κ T E) :
    failure (history ++ [e]) = Event.fail (failure history) e := by
  simp [failure]

/-- An invocation finds no failure that has not been reset, and a trigger that is called after the end
of a failed cycle throws the exception of that cycle unless there was a reset since. -/
def FailureHandled (before : List (Event κ T E)) : Event κ T E → Prop
  | .invoked _ _ => failure before = none
  | .returned k result => ∃ earlier call since, LastCall k before earlier call since ∧
      ∀ time period e, call = .trigger time period → failure earlier = some ⟨e, true⟩ →
        (∀ j, .reset j ∉ since) → result = .threw (.callback e)
  | _ => True

/-- The trigger is on its way to rethrow a stored exception. -/
def TriggerPc.rethrowing : TriggerPc T → Bool
  | .testInitialized | .loadException | .rethrow => true
  | _ => false

namespace WorkerPc

/-- The callback has thrown and its exception is not stored yet. -/
def storing : WorkerPc T E → Bool
  | .loop _ (.storeException _) => true
  | _ => false

def inCallback : WorkerPc T E → Bool
  | .loop _ .inCallback => true
  | _ => false

end WorkerPc

/-- Client `k` has seen the failure its trigger was called after. -/
def FailureSeen (k : κ) (s : State κ T E) : Prop :=
  ∀ time period pc earlier since e, s.client k = .trigger time period pc →
    LastCall k s.history earlier (.trigger time period) since →
    failure earlier = some ⟨e, true⟩ → (∀ j, .reset j ∉ since) →
    failure s.history = some ⟨e, true⟩ ∧ pc.rethrowing = true

/-- The stored exception is the failure of the history, and no cycle starts while there is one. -/
structure ExceptionStored (s : State κ T E) : Prop where
  initialized : s.isInitialized = true
  stored : s.worker.storing = false →
    s.asyncExceptionPtr = (failure s.history).map Failure.exception
  storing : ∀ site e, s.worker = .loop site (.storeException e) →
    failure s.history = some ⟨e, false⟩
  pending : s.triggerInProgress = true → s.worker.hasInvoked = false → s.asyncExceptionPtr = none
  running : s.worker.inCallback = true → failure s.history = none

/-- An event that is neither a call of `k` nor undoes the failure leaves `k` where it is. -/
theorem FailureSeen.extend (h : FailureSeen k s) (hclient : s'.client k = s.client k)
    (hh : s'.history = s.history ∨ ∃ e : Event κ T E, s'.history = s.history ++ [e] ∧
      (∀ call, e ≠ .called k call) ∧ ((∃ j, e = .reset j) ∨
        ∀ x, failure s.history = some ⟨x, true⟩ → e.fail (some ⟨x, true⟩) = some ⟨x, true⟩)) :
    FailureSeen k s' := by
  intro time period pc earlier since x hpc hlast hfail hno
  rw [hclient] at hpc
  rcases hh with hh | ⟨e, hh, hcall, hkeep⟩
  · rw [hh] at hlast ⊢
    exact h time period pc earlier since x hpc hlast hfail hno
  · rw [hh] at hlast ⊢
    rcases hlast.of_concat with ⟨_, he, _⟩ | ⟨since', rfl, hlast'⟩
    -- The new event is not the call itself, so it comes after it.
    · exact absurd he.symm (hcall _)
    · obtain ⟨hfailure, hre⟩ :=
        h time period pc earlier since' x hpc hlast' hfail fun j hmem => hno j (by simp [hmem])
      refine ⟨?_, hre⟩
      rcases hkeep with ⟨j, rfl⟩ | hkeep
      · exact absurd (by simp) (hno j)
      · rw [failure_concat, hfailure]
        exact hkeep x hfailure

/-- While the failure of an ended cycle stands, its exception is stored. -/
theorem ExceptionStored.of_failure {e : E} (h : ExceptionStored s)
    (hfailure : failure s.history = some ⟨e, true⟩) : s.asyncExceptionPtr = some e := by
  have hnot : s.worker.storing = false := by
    by_contra hstoring
    unfold WorkerPc.storing at hstoring
    split at hstoring
    · rename_i site e' hw
      cases (h.storing site e' hw).symm.trans hfailure
    · exact hstoring rfl
  rw [h.stored hnot, hfailure]
  rfl

/-- A move of the worker that is neither into nor out of the callback's failure. -/
structure CalmMove (pc pc' : WorkerPc T E) : Prop where
  hasInvoked : pc'.hasInvoked = pc.hasInvoked
  notStoring : pc.storing = false
  notStoring' : pc'.storing = false
  notInCallback : pc'.inCallback = false

theorem QuietMove.calm {pc pc' : WorkerPc T E} (h : QuietMove s pc pc') : CalmMove pc pc' := by
  cases h with
  | firstTrue site _ | firstFalse site _ | stopTrue site _ | stopFalse site _ | running site _ =>
    cases site <;> exact ⟨rfl, rfl, rfl, rfl⟩
  | _ => exact ⟨rfl, rfl, rfl, rfl⟩

theorem ExceptionStored.of_calm (h : ExceptionStored s) (hpc : CalmMove s.worker s'.worker)
    (hfailure : failure s'.history = failure s.history)
    (hptr : s'.asyncExceptionPtr = s.asyncExceptionPtr)
    (hinit : s'.isInitialized = s.isInitialized)
    (hbusy : s'.triggerInProgress = true → s.triggerInProgress = true) : ExceptionStored s' where
  initialized := hinit.trans h.initialized
  stored _ := by rw [hptr, hfailure, h.stored hpc.notStoring]
  storing site e hw := by
    have hnot := hpc.notStoring'
    rw [hw] at hnot
    cases hnot
  pending htrigger hnot := hptr.trans (h.pending (hbusy htrigger) (hpc.hasInvoked ▸ hnot))
  running hin := nomatch hpc.notInCallback.symm.trans hin

/-- A cycle starts only with no failure standing. -/
theorem ExceptionStored.none_of_invoke {site : Loop} (h : ExceptionStored s)
    (hpc : s.worker = .loop site .invoke)
    (hfollows : (WorkerPc.loop site .invoke : WorkerPc T E).Follows .synchronized)
    (hc : Cycling site s) : failure s.history = none := by
  have hptr := h.pending (hc (site_of_follows hfollows)) (by rw [hpc]; rfl)
  have hstored := h.stored (by rw [hpc]; rfl)
  rw [hptr] at hstored
  exact Option.map_eq_none_iff.mp hstored.symm

section Steps

variable [DecidableEq κ] {allowed : Call → Bool}

theorem WorkerEffect.exceptionStored (hs : WorkerEffect s s')
    (hfacts : Started .synchronized allowed s) (h : ExceptionStored s) : ExceptionStored s' := by
  have hfollows := hfacts.steady.worker
  have hcalm : CalmMove s.worker s'.worker → failure s'.history = failure s.history →
      s'.asyncExceptionPtr = s.asyncExceptionPtr → s'.isInitialized = s.isInitialized →
      (s'.triggerInProgress = true → s.triggerInProgress = true) → ExceptionStored s' :=
    fun hpc hfailure hptr hinit hbusy => h.of_calm hpc hfailure hptr hinit hbusy
  cases hs with
  | quiet hpc hm hh =>
    exact hcalm hpc.calm (by rw [hh]) (by rw [hm]) (by rw [hm]) (by rw [hm]; exact id)
  | fault hpc hm hh =>
    exact ⟨by rw [hm]; exact h.initialized, by rw [hpc, hm, hh]; exact h.stored,
      by rw [hpc, hh]; exact h.storing, by rw [hpc, hm]; exact h.pending,
      by rw [hpc, hh]; exact h.running⟩
  | lock site hpc hpc' _ hm hh | wake site hpc hpc' hm hh =>
    refine hcalm ?_ (by rw [hh]) (by rw [hm]) (by rw [hm]; rfl) (by rw [hm]; exact id)
    rw [hpc, hpc']
    cases site <;> exact ⟨rfl, rfl, rfl, rfl⟩
  | block site hpc hpc' _ _ hm hh =>
    refine hcalm ?_ (by rw [hh]) (by rw [hm]) (by rw [hm]; rfl) (by rw [hm]; exact id)
    rw [hpc, hpc']
    cases site <;> exact ⟨rfl, rfl, rfl, rfl⟩
  | prologueUnlock hpc hpc' _ hm hh | readPrevious _ hpc hpc' hm hh | measure _ hpc hpc' _ hm hh
  | unlock _ hpc hpc' _ _ hm hh | notifyAll _ hpc hpc' hm hh =>
    refine hcalm ?_ (by rw [hh]) (by rw [hm]) (by rw [hm]; rfl) (by rw [hm]; exact id)
    rw [hpc, hpc']
    exact ⟨rfl, rfl, rfl, rfl⟩
  | storeReturn site _ hpc hpc' _ _ hm hh =>
    refine hcalm ?_ (by rw [hh]) (by rw [hm]) (by rw [hm]; rfl) (by rw [hm]; exact id)
    rw [hpc, hpc']
    cases site <;> exact ⟨rfl, rfl, rfl, rfl⟩
  | callbackReturned site value hpc hpc' _ _ hm hh =>
    refine hcalm ?_ ?_ (by rw [hm]) (by rw [hm]) (by rw [hm]; exact id)
    · rw [hpc, hpc']
      exact ⟨rfl, rfl, rfl, rfl⟩
    · rw [hh, failure_concat]
      rfl
  | clearStopped site hpc hpc' _ hm hh =>
    refine ⟨by rw [hm]; exact h.initialized, fun _ => ?_, ?_, ?_, ?_⟩
    · rw [hm, hh]
      exact h.stored (by rw [hpc]; rfl)
    · exact fun site e hw => nomatch hpc'.symm.trans hw
    · exact fun hbusy => nomatch (congrArg Members.triggerInProgress hm).symm.trans hbusy
    · exact fun hin => nomatch (congrArg WorkerPc.inCallback hpc').symm.trans hin
  | clear site hpc hpc' _ _ hm hh =>
    refine ⟨by rw [hm]; exact h.initialized, fun _ => ?_, ?_, ?_, ?_⟩
    · rw [hm, hh, failure_concat]
      refine (h.stored (by rw [hpc]; rfl)).trans ?_
      cases failure s.history <;> rfl
    · exact fun site e hw => nomatch hpc'.symm.trans hw
    · exact fun hbusy => nomatch (congrArg Members.triggerInProgress hm).symm.trans hbusy
    · exact fun hin => nomatch (congrArg WorkerPc.inCallback hpc').symm.trans hin
  | invoke site hpc hpc' hown hc hm hh =>
    -- No failure stands when a cycle starts, and none can while the worker owns the mutex.
    have hnone := h.none_of_invoke hpc (hpc ▸ hfollows) hc
    refine ⟨by rw [hm]; exact h.initialized, fun _ => ?_, ?_, ?_, fun _ => ?_⟩
    · rw [hm, hh, failure_concat]
      exact h.stored (by rw [hpc]; rfl)
    · exact fun site e hw => nomatch hpc'.symm.trans hw
    · exact fun _ hnot => nomatch (congrArg WorkerPc.hasInvoked hpc').symm.trans hnot
    · rw [hh, failure_concat]
      exact hnone
  | callbackThrew site e hpc hpc' _ _ hm hh =>
    refine ⟨by rw [hm]; exact h.initialized, ?_, fun site' e' hw => ?_, ?_, ?_⟩
    · exact fun hnot => nomatch (congrArg WorkerPc.storing hpc').symm.trans hnot
    · cases hpc'.symm.trans hw
      rw [hh, failure_concat]
      rfl
    · exact fun _ hnot => nomatch (congrArg WorkerPc.hasInvoked hpc').symm.trans hnot
    · exact fun hin => nomatch (congrArg WorkerPc.inCallback hpc').symm.trans hin
  | storeException site e hpc hpc' _ _ hm hh =>
    have hfailure := h.storing site e hpc
    rw [hpc] at hfollows
    obtain rfl := site_of_follows hfollows
    refine ⟨by rw [hm]; exact h.initialized, fun _ => ?_, ?_, ?_, ?_⟩
    · rw [hm, hh, hfailure]
      rfl
    · exact fun site e hw => nomatch hpc'.symm.trans hw
    · exact fun _ hnot => nomatch (congrArg WorkerPc.hasInvoked hpc').symm.trans hnot
    · exact fun hin => nomatch (congrArg WorkerPc.inCallback hpc').symm.trans hin

/-- The callback does not throw while a failure stands. -/
theorem WorkerEffect.failureSeen (hs : WorkerEffect s s') (hclient : s'.client = s.client)
    (h : ExceptionStored s) (hseen : FailureSeen k s) : FailureSeen k s' := by
  refine hseen.extend (congrFun hclient k) ?_
  cases hs with
  | callbackThrew site e hpc _ _ _ _ hh =>
    refine .inr ⟨_, hh, by simp, .inr fun x hfailure => ?_⟩
    rw [h.running (by rw [hpc]; rfl)] at hfailure
    cases hfailure
  | invoke _ _ _ _ _ _ hh | callbackReturned _ _ _ _ _ _ _ hh | clear _ _ _ _ _ _ hh =>
    exact .inr ⟨_, hh, by simp, .inr fun _ _ => rfl⟩
  | _ => exact .inl ‹_›

variable [Inhabited T]

/-- A client changes the failure and the stored exception by a reset only. -/
theorem ClientEffect.exception (hs : ClientEffect k s s') :
    (s'.asyncExceptionPtr = s.asyncExceptionPtr ∧ failure s'.history = failure s.history) ∨
      (Owns (.client k) s ∧ s'.asyncExceptionPtr = none ∧ failure s'.history = none) := by
  have hcall : CallHistory k s s' → failure s'.history = failure s.history := by
    rintro (hh | ⟨e, he, hh⟩) <;> rw [hh]
    rw [failure_concat]
    cases e <;> first | rfl | exact he.elim
  cases hs with
  | resetException hown hm hh =>
    refine .inr ⟨hown, by rw [hm], ?_⟩
    rw [hh, failure_concat]
    rfl
  | init call hpc ha hh =>
    obtain ⟨_, priority, predicate, params, pause, hm⟩ := InitCall.apply_ok ha
    exact .inl ⟨by rw [hm], hcall hh⟩
  | quiet hm hh | unlock _ hm hh | join _ hm hh | spawn hm hh => exact .inl ⟨by rw [hm], hcall hh⟩
  | storeTrigger _ _ _ _ _ _ hm hh | storeResume _ _ hm hh | storePrevious _ _ _ hm hh
  | storePause hm hh =>
    refine .inl ⟨by rw [hm], ?_⟩
    rw [hh, failure_concat]
    rfl
  | _ =>
    rename_i hm hh
    exact .inl ⟨by rw [hm], by rw [hh]⟩

theorem ClientEffect.isInitialized (hs : ClientEffect k s s')
    (hno : ∀ call, s.client k ≠ .init call) : s'.isInitialized = s.isInitialized := by
  cases hs with
  | init call hpc _ _ => exact absurd hpc (hno call)
  | _ =>
    rename_i hm _
    have hinit := congrArg Members.isInitialized hm
    exact hinit

/-- No trigger is accepted while an exception is stored. -/
def AcceptsHandled (s : State κ T E) : Thread κ → Prop
  | .worker => True
  | .client k => (s.client k).accepting = true → s.asyncExceptionPtr = none

instance (s : State κ T E) : ∀ t, Decidable (AcceptsHandled s t)
  | .worker => inferInstanceAs (Decidable True)
  | .client _ => inferInstanceAs (Decidable (_ → _))

theorem ClientEffect.exceptionStored (hs : ClientEffect k s s') (hat : At .worker s)
    (hworker : s'.worker = s.worker) (hno : ∀ call, s.client k ≠ .init call)
    (haccept : AcceptsHandled s (.client k)) (h : ExceptionStored s) : ExceptionStored s' := by
  -- While the callback runs and until its exception is stored, the worker keeps resets out.
  have hkept : s.worker.hasInvoked = true → failure s'.history = failure s.history := by
    intro hinvoked
    rcases hs.exception with ⟨_, hfailure⟩ | ⟨hown, _⟩
    · exact hfailure
    · cases (owns_of_hasInvoked hat hinvoked).symm.trans hown
  refine ⟨(hs.isInitialized hno).trans h.initialized, fun hnot => ?_, fun site e hw => ?_, ?_, ?_⟩
  · rcases hs.exception with ⟨hptr, hfailure⟩ | ⟨_, hptr, hfailure⟩
    · rw [hptr, hfailure]
      exact h.stored (hworker ▸ hnot)
    · rw [hptr, hfailure]
      rfl
  · rw [hworker] at hw
    rw [hkept (by rw [hw]; rfl)]
    exact h.storing site e hw
  · intro hbusy hnot
    -- Either the cycle was pending before, or it is accepted by this step.
    have hptr : s.asyncExceptionPtr = none := by
      cases htrigger : s.triggerInProgress with
      | true => exact h.pending htrigger (hworker ▸ hnot)
      | false =>
        refine haccept ?_
        by_contra hidle
        cases (hs.not_accepted hno htrigger (by simpa using hidle)).symm.trans hbusy
    rcases hs.exception with ⟨hsame, _⟩ | ⟨_, hreset, _⟩
    · exact hsame.trans hptr
    · exact hreset
  · rw [hworker]
    intro hin
    have hinvoked : s.worker.hasInvoked = true := by
      unfold WorkerPc.inCallback at hin
      split at hin
      · rename_i hw
        rw [hw]
        rfl
      · cases hin
    rw [hkept hinvoked]
    exact h.running hin

/-- With an exception stored a trigger goes on to rethrow it. -/
theorem clientStep_rethrowing {time : Time} {period : Duration} {pc : TriggerPc T} {e : E}
    (hpc : s.client k = .trigger time period pc) (hre : pc.rethrowing = true)
    (hinit : s.isInitialized = true) (hptr : s.asyncExceptionPtr = some e)
    (h : clientStep s k o = some s') :
    (∃ pc', s'.client k = .trigger time period pc' ∧ pc'.rethrowing = true ∧
        s'.history = s.history) ∨
      (s'.client k = .idle ∧
        s'.history = s.history ++ [.returned k (.threw (.callback e))]) := by
  simp only [clientStep, hpc] at h
  cases pc <;> cases hre
  · simp only [triggerAsyncCallback, hinit, if_true] at h
    obtain rfl := Option.some.inj h
    exact .inl ⟨.loadException, by simp, rfl, rfl⟩
  · obtain rfl := Option.some.inj h
    exact .inl ⟨.rethrow, by simp [hptr], rfl, rfl⟩
  · simp only [triggerAsyncCallback, hptr] at h
    obtain rfl := Option.some.inj h
    exact .inr ⟨by simp [State.returnWith], rfl⟩

theorem FailureSeen.own (h : FailureSeen k s) (hstored : ExceptionStored s)
    (hpolicy : s.params.schedulingPolicy = .synchronized)
    (hsync : (s.client k).detachedOnly = false) (hstep : clientStep s k o = some s') :
    FailureSeen k s' := by
  intro time period pc' earlier since e hpc' hlast hfail hno
  rcases clientStep_inTrigger hpolicy hsync hpc' hstep with ⟨rfl, hh⟩ | ⟨pc, hpc, hmove⟩
  · rw [hh] at hlast ⊢
    rcases hlast.of_concat with ⟨rfl, _, _⟩ | ⟨since', rfl, _⟩
    · rw [failure_concat, hfail]
      exact ⟨rfl, rfl⟩
    · exact absurd ⟨_, rfl⟩ (hlast.last (.called k (.trigger time period)) (by simp))
  · have hh : s'.history = s.history ∨ ∃ e : Event κ T E, (∀ call, e ≠ .called k call) ∧
        s'.history = s.history ++ [e] := by
      cases hmove with
      | store _ hh => exact .inr ⟨_, by simp, hh⟩
      | goOn _ _ _ _ _ hh => exact hh.imp id fun ⟨_, hh⟩ => ⟨_, by simp, hh⟩
      | finish _ _ _ hh => exact .inr ⟨_, by simp, hh⟩
    obtain ⟨hfailure, hre⟩ : failure s.history = some ⟨e, true⟩ ∧ pc.rethrowing = true := by
      rcases hh with hh | ⟨e', hcall, hh⟩ <;> rw [hh] at hlast
      · exact h time period pc earlier since e hpc hlast hfail hno
      · rcases hlast.of_concat with ⟨_, he, _⟩ | ⟨since', rfl, hlast'⟩
        · exact absurd he.symm (hcall _)
        · exact h time period pc earlier since' e hpc hlast' hfail fun j hmem =>
            hno j (by simp [hmem])
    -- The exception is stored, so the call can only go on to rethrow it.
    have hptr := hstored.of_failure hfailure
    rcases clientStep_rethrowing hpc hre hstored.initialized hptr hstep with
      ⟨pc₁, hpc₁, hre₁, hsame⟩ | ⟨hidle, _⟩
    · cases hpc'.symm.trans hpc₁
      exact ⟨hsame ▸ hfailure, hre₁⟩
    · cases hpc'.symm.trans hidle

/-- What a call returns after a failure. -/
theorem FailureSeen.handled {e : Event κ T E} (h : FailureSeen k s) (hstored : ExceptionStored s)
    (hrecorded : CallRecorded k s) (hs : ClientEffect k s s')
    (hstep : clientStep s k o = some s') (hh : s'.history = s.history ++ [e]) :
    FailureHandled s.history e := by
  cases e with
  | returned j result =>
    obtain ⟨rfl, hret, _⟩ := clientStep_returned hstep hh
    obtain ⟨call, hcall⟩ : ∃ call, (s.client j).call? = some call := by
      refine Option.ne_none_iff_exists'.mp fun hnone => ?_
      rw [call?_eq_none.mp hnone] at hret
      cases hret
    obtain ⟨earlier, since, hlast, _⟩ := hrecorded.call call hcall
    refine ⟨earlier, call, since, hlast, ?_⟩
    rintro time period x rfl hfail hno
    obtain ⟨pc, hpc⟩ := call?_eq_trigger hcall
    obtain ⟨hfailure, hre⟩ := h time period pc earlier since x hpc hlast hfail hno
    rcases clientStep_rethrowing hpc hre hstored.initialized (hstored.of_failure hfailure) hstep with
      ⟨_, _, _, hsame⟩ | ⟨_, hthrew⟩
    · simp [hsame] at hh
    · simpa [hthrew, eq_comm] using hh
  | invoked time period =>
    rcases hs.history with hsame | ⟨e, he, hh'⟩
    · simp [hsame] at hh
    · obtain rfl : e = .invoked time period := by simpa [hh'] using hh
      cases he
  | _ => trivial

/-! ## Runs -/

/-- The calls of a client that triggers, and resets the handler. -/
def handling : Call → Bool
  | .trigger _ _ | .reset => true
  | _ => false

omit [DecidableEq κ] [Inhabited T] in
theorem setsUp_of_handling {call : Call} (h : handling call = true) : call.setsUp = false := by
  cases call <;> first | rfl | cases h

/-- Clients trigger and reset, and no trigger is accepted while an exception is stored. -/
def HandlingCarefully (s : State κ T E) (t : Thread κ) (o : Oracle κ T E) : Prop :=
  Calling handling s t o ∧ AcceptsHandled s t

instance (s : State κ T E) (t : Thread κ) (o : Oracle κ T E) :
    Decidable (HandlingCarefully s t o) :=
  inferInstanceAs (Decidable (_ ∧ _))

/-- What holds of a handler whose failures are handled. -/
structure Handled (s : State κ T E) : Prop where
  stored : ExceptionStored s
  recorded : ∀ k, CallRecorded k s
  seen : ∀ k, FailureSeen k s
  history : Justified FailureHandled s.history

omit [Inhabited T] in
theorem Handled.workerEffect (h : Handled s) (hfacts : Started .synchronized allowed s)
    (hclient : s'.client = s.client) (hs : WorkerEffect s s') : Handled s' where
  stored := hs.exceptionStored hfacts h.stored
  recorded := .afterWorker h.recorded hclient hs
  seen k := hs.failureSeen hclient h.stored (h.seen k)
  history := by
    have hfollows := hfacts.steady.worker
    cases hs with
    | invoke site hpc _ _ hc _ hh =>
      exact hh ▸ justified_concat.mpr ⟨h.history, h.stored.none_of_invoke hpc (hpc ▸ hfollows) hc⟩
    | callbackReturned _ _ _ _ _ _ _ hh | callbackThrew _ _ _ _ _ _ _ hh | clear _ _ _ _ _ _ hh =>
      exact hh ▸ justified_concat.mpr ⟨h.history, trivial⟩
    | _ =>
      rename_i hh
      exact hh ▸ h.history

theorem Handled.clientStep (h : Handled s) (hfacts : Started .synchronized allowed s)
    (hs : ClientStep k s s') (hworker : s'.worker = s.worker)
    (hno : ∀ call, s.client k ≠ .init call) (haccept : AcceptsHandled s (.client k))
    (hstep : clientStep s k o = some s') : Handled s' where
  stored := hs.effect.exceptionStored (hfacts.at_ .worker) hworker hno haccept h.stored
  recorded := .afterClient h.recorded hfacts.steady.params hs hstep
  seen j := by
    by_cases hjk : j = k
    · subst hjk
      exact (h.seen j).own h.stored hfacts.steady.params (h.recorded j).sync hstep
    · refine (h.seen j).extend (hs.others hjk) (hs.effect.history.imp id ?_)
      rintro ⟨e, he, hh⟩
      refine ⟨e, hh, ?_, ?_⟩
      · rintro call rfl
        exact hjk (Option.some.inj he)
      · cases e <;> first | exact .inr fun _ _ => rfl | exact .inl ⟨_, rfl⟩ | cases he
  history := by
    refine h.history.step hs.effect.grows fun e hh => ?_
    exact (h.seen k).handled h.stored (h.recorded k) hs.effect hstep hh

/-- **A failed callback is handled first.**  After the callback has thrown it is not invoked again
before a reset, and until then every trigger called after the end of the failed cycle throws its
exception. -/
theorem failed_callback_handled_first
    (h : Reachable (startedHandler κ T E .synchronized) HandlingCarefully s) :
    Justified FailureHandled s.history := by
  refine (started_invariant (I := Handled) (fun _ _ _ hp => hp.1) (fun _ => setsUp_of_handling)
    ?_ ?_ ?_ h).2.history
  · intro params pauseThread previousTime _
    exact ⟨⟨rfl, fun _ => rfl, fun _ _ hw => (nomatch hw), fun hbusy => (nomatch hbusy), fun _ => rfl⟩,
      fun k => ⟨rfl, fun call hcall => (nomatch hcall)⟩,
      fun k _ _ _ _ _ _ hpc => (nomatch hpc), justified_nil⟩
  · exact fun s o s' hfacts _ hhandled _ hclient hs => hhandled.workerEffect hfacts hclient hs
  · exact fun s k o s' hfacts _ hhandled hp hs hworker hno hstep =>
      hhandled.clientStep hfacts hs hworker hno.not_init hp.2 hstep

end Steps

/-- A client triggers a cycle whose callback throws, and triggers again. -/
def failedCycle : List (Thread Unit × Oracle Unit Nat Nat) :=
  List.replicate 13 (.client (), { call := .trigger 1 2, callback := .ok 0 }) ++
    List.replicate 11 (.worker, { callback := .error 7 }) ++
    List.replicate 4 (.client (), { call := .trigger 3 4, callback := .ok 0 })

theorem failed_callback_handled_first_rethrown :
    ∃ s : State Unit Nat Nat,
      Reachable (startedHandler Unit Nat Nat .synchronized) HandlingCarefully s ∧
        failure s.history = some ⟨7, true⟩ ∧
        s.history.getLast? = some (.returned () (.threw (.callback 7))) ∧
        Justified FailureHandled s.history := by
  obtain ⟨s, hs, hp⟩ := exists_reachable_of_exec
    (startedHandler Unit Nat Nat .synchronized) HandlingCarefully failedCycle (started {} true 0)
    (fun s => failure s.history = some ⟨7, true⟩ ∧
      s.history.getLast? = some (.returned () (.threw (.callback 7))))
    ⟨_, _, _, rfl, rfl⟩ (by decide)
  obtain ⟨hfailure, hlast⟩ : failure s.history = some ⟨7, true⟩ ∧
      s.history.getLast? = some (.returned () (.threw (.callback 7))) := by simpa using hp
  exact ⟨s, hs, hfailure, hlast, failed_callback_handled_first hs⟩

/-- A client triggers a cycle.  While its callback runs the client triggers again and passes the test
of `async_exception_ptr_`; the callback throws before the client tries to lock. -/
def triggeredWhileFailing : List (Thread Unit × Oracle Unit Nat Nat) :=
  List.replicate 13 (.client (), { call := .trigger 1 2, callback := .ok 0 }) ++
    List.replicate 6 (.worker, { callback := .error 7 }) ++
    List.replicate 5 (.client (), { call := .trigger 3 4, callback := .ok 0 }) ++
    List.replicate 5 (.worker, { callback := .error 7 }) ++
    List.replicate 8 (.client (), { callback := .ok 0 }) ++
    List.replicate 5 (.worker, { callback := .ok 0 })

/-- The callback is invoked again although its exception has been neither rethrown nor reset. -/
theorem failed_callback_run_again :
    ∃ s : State Unit Nat Nat,
      Reachable (startedHandler Unit Nat Nat .synchronized) (Calling handling) s ∧
        ¬ Justified FailureHandled s.history := by
  obtain ⟨s, hs, hp⟩ := exists_reachable_of_exec
    (startedHandler Unit Nat Nat .synchronized) (Calling handling) triggeredWhileFailing
    (started {} true 0)
    (fun s => failure s.history = some ⟨7, true⟩ ∧ s.history.getLast? = some (.invoked 3 4))
    ⟨_, _, _, rfl, rfl⟩ (by decide)
  obtain ⟨hfailure, hlast⟩ : failure s.history = some ⟨7, true⟩ ∧
      s.history.getLast? = some (.invoked 3 4) := by simpa using hp
  obtain ⟨before, hbefore⟩ := List.getLast?_eq_some_iff.mp hlast
  refine ⟨s, hs, fun hjustified => ?_⟩
  have hnone : failure before = none := hjustified before (.invoked 3 4) [] hbefore
  rw [hbefore, failure_concat, hnone] at hfailure
  cases hfailure

end AsyncFunctionHandler
