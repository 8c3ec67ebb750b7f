import RealtimeTools.AsyncHandler.Cycles
import RealtimeTools.AsyncHandler.TriggerPaths

/-!
# What a successful trigger reports

With the `SYNCHRONIZED` policy `trigger_async_callback` loads `async_callback_return_` after it has
released the mutex and notified the worker.  It reports the value of the cycle before its own as long
as the worker has not stored the value of its own by then.
-/

open Interleaving

namespace AsyncFunctionHandler

variable {κ T E : Type} {s s' : State κ T E} {k : κ} {o : Oracle κ T E}

/-! ## Return values in the history -/

def Event.callbackReturned? : Event κ T E → Option T
  | .callbackReturned value => some value
  | _ => none

/-- The values the callback has returned, in order. -/
def returnedValues (history : List (Event κ T E)) : List T :=
  history.filterMap Event.callbackReturned?

/-- The value that the last completed invocation has returned, `T()` if there was none. -/
def lastReturned [Inhabited T] (history : List (Event κ T E)) : T :=
  (returnedValues history).getLast?.getD default

/-- The callback has returned, and its value is not stored yet. -/
def WorkerPc.holdsReturn : WorkerPc T E → Bool
  | .loop _ (.storeReturn _) => true
  | _ => false

/-- The values that the worker has stored into `async_callback_return_`. -/
def storedValues (s : State κ T E) : List T :=
  if s.worker.holdsReturn then (returnedValues s.history).dropLast else returnedValues s.history

theorem returnedValues_concat {history : List (Event κ T E)} {e : Event κ T E} :
    returnedValues (history ++ [e]) = returnedValues history ++ e.callbackReturned?.toList :=
  filterMap_concat _ _ _

/-- The member is the last value stored, and the worker brings the next one. -/
structure ReturnKept [Inhabited T] (s : State κ T E) : Prop where
  stored : s.asyncCallbackReturn = (storedValues s).getLast?.getD default
  held : ∀ site value, s.worker = .loop site (.storeReturn value) →
    (returnedValues s.history).getLast? = some value

/-! ## The worker -/

theorem QuietMove.holdsReturn {pc pc' : WorkerPc T E} (h : QuietMove s pc pc') :
    pc.holdsReturn = false ∧ pc'.holdsReturn = false := by
  cases h with
  | firstTrue site _ | firstFalse site _ | stopTrue site _ | stopFalse site _ =>
    cases site <;> exact ⟨rfl, rfl⟩
  | running site _ => cases site <;> exact ⟨rfl, rfl⟩
  | _ => exact ⟨rfl, rfl⟩

theorem ReturnKept.of_same [Inhabited T] (h : ReturnKept s)
    (hpc : s.worker.holdsReturn = false) (hpc' : s'.worker.holdsReturn = false)
    (hm : s'.asyncCallbackReturn = s.asyncCallbackReturn)
    (hh : returnedValues s'.history = returnedValues s.history) : ReturnKept s' where
  stored := by
    have hstored := h.stored
    unfold storedValues at hstored ⊢
    rw [hpc] at hstored
    rw [hpc', hm, hh]
    exact hstored
  held site value hw := by
    rw [hw] at hpc'
    cases hpc'

theorem ReturnKept.workerEffect [DecidableEq κ] [Inhabited T] (h : ReturnKept s)
    (he : WorkerEffect s s') : ReturnKept s' := by
  cases he with
  | quiet hpc hm hh => exact h.of_same hpc.holdsReturn.1 hpc.holdsReturn.2 (by rw [hm]) (by rw [hh])
  | fault hpc hm hh =>
    refine ⟨?_, fun site value hw => ?_⟩
    · have hstored := h.stored
      unfold storedValues at hstored ⊢
      rw [hpc, hh, hm]
      exact hstored
    · rw [hh]
      exact h.held site value (hpc ▸ hw)
  | callbackReturned site value hpc hpc' _ _ hm hh =>
    have hvalues : returnedValues s'.history = returnedValues s.history ++ [value] := by
      rw [hh, returnedValues_concat]
      rfl
    have hstored := h.stored
    unfold storedValues at hstored
    rw [hpc] at hstored
    refine ⟨?_, fun site' value' hw => ?_⟩
    · unfold storedValues
      rw [hpc', hvalues, hm]
      simpa [WorkerPc.holdsReturn] using hstored
    · rw [hpc'] at hw
      cases hw
      rw [hvalues, List.getLast?_concat]
  | storeReturn site value hpc hpc' _ _ hm hh =>
    have hlast := h.held site value hpc
    refine ⟨?_, fun site' value' hw => ?_⟩
    · unfold storedValues
      have hnot : s'.worker.holdsReturn = false := by
        rw [hpc']
        cases site <;> rfl
      rw [hnot, hh, hm]
      simp [hlast]
    · rw [hpc'] at hw
      cases site <;> cases hw
  | lock site hpc hpc' _ hm hh | wake site hpc hpc' hm hh | block site hpc hpc' _ _ hm hh =>
    refine h.of_same ?_ ?_ (by rw [hm]) (by rw [hh])
    · rw [hpc]
      cases site <;> rfl
    · rw [hpc']
      cases site <;> rfl
  | storeException site e hpc hpc' _ _ hm hh =>
    refine h.of_same (by rw [hpc]; rfl) ?_ (by rw [hm]) (by rw [hh])
    rw [hpc']
    cases site <;> rfl
  | invoke site hpc hpc' _ _ hm hh | callbackThrew site e hpc hpc' _ _ hm hh
  | clear site hpc hpc' _ _ hm hh =>
    refine h.of_same (by rw [hpc]; rfl) (by rw [hpc']; rfl) (by rw [hm]) ?_
    rw [hh, returnedValues_concat]
    exact List.append_nil _
  | prologueUnlock hpc hpc' _ hm hh | readPrevious _ hpc hpc' hm hh | measure _ hpc hpc' _ hm hh
  | clearStopped site hpc hpc' _ hm hh | unlock site hpc hpc' _ _ hm hh
  | notifyAll site hpc hpc' hm hh =>
    exact h.of_same (by rw [hpc]; rfl) (by rw [hpc']; rfl) (by rw [hm]) (by rw [hh])

/-! ## The clients -/

/-- A trigger of `k` is accepted. -/
def Event.acceptedBy [DecidableEq κ] (k : κ) : Event κ T E → Bool
  | .accepted j _ _ => j == k
  | _ => false

/-- A call of `k` is begun, or is accepted as a trigger. -/
def Event.Opens (k : κ) : Event κ T E → Prop
  | .called j _ | .accepted j _ _ => j = k
  | _ => False

/-- A trigger that returns true has been accepted in that call, and returns the value of the last
invocation that was completed by then. -/
def ReportsPrevious [Inhabited T] (before : List (Event κ T E)) : Event κ T E → Prop
  | .returned k (.pair true value) => ∃ time period accepting since,
      LastEvent (Event.Opens k) before accepting (.accepted k time period) since ∧
        value = lastReturned accepting
  | _ => True

/-- The trigger will load its return value without the mutex. -/
def TriggerPc.unlocked : TriggerPc T → Bool
  | .loadReturn true true | .release true _ => false
  | _ => true

/-- Where a client has stored the flag, its acceptance is the last thing that opens anything. -/
structure AcceptedLast (k : κ) (s : State κ T E) : Prop where
  unlocked : ∀ time period pc, s.client k = .trigger time period pc → pc.unlocked = true
  accepted : ∀ time period pc, s.client k = .trigger time period pc → pc.stored = true →
    ∃ accepting since,
      LastEvent (Event.Opens k) s.history accepting (.accepted k time period) since

/-- The next step loads the return value of a trigger that has been accepted. -/
def ClientPc.loading : ClientPc T → Bool
  | .trigger _ _ (.loadReturn true _) => true
  | _ => false

/-- An accepted trigger loads its return value before the worker has stored one that the callback has
returned since. -/
def LoadsInTime [DecidableEq κ] (s : State κ T E) : Thread κ → Prop
  | .worker => True
  | .client k => (s.client k).loading = true →
      storedValues s = returnedValues (s.history.rdropWhile fun e => !e.acceptedBy k)

instance [DecidableEq κ] [DecidableEq T] (s : State κ T E) : ∀ t, Decidable (LoadsInTime s t)
  | .worker => inferInstanceAs (Decidable True)
  | .client _ => inferInstanceAs (Decidable (_ → _))

/-- No stops and resets, and every accepted trigger loads in time. -/
def LoadingInTime [DecidableEq κ] (s : State κ T E) (t : Thread κ) (o : Oracle κ T E) : Prop :=
  Calling triggering s t o ∧ LoadsInTime s t

instance [DecidableEq κ] [DecidableEq T] (s : State κ T E) (t : Thread κ) (o : Oracle κ T E) :
    Decidable (LoadingInTime s t o) :=
  inferInstanceAs (Decidable (_ ∧ _))

section Steps

variable [DecidableEq κ] [Inhabited T]

omit [Inhabited T] in
/-- Seen from the last event that opens something, the last acceptance is the one. -/
theorem rdropWhile_acceptedBy {before accepting since : List (Event κ T E)} {time : Time}
    {period : Duration}
    (h : LastEvent (Event.Opens k) before accepting (.accepted k time period) since) :
    before.rdropWhile (fun e => !e.acceptedBy k) = accepting ++ [.accepted k time period] := by
  have hlast : LastEvent (fun e => e.acceptedBy k = true) before accepting
      (.accepted k time period) since := by
    refine ⟨h.split, by simp [Event.acceptedBy], fun e hmem he => h.last e hmem ?_⟩
    cases e with
    | accepted j _ _ => exact beq_iff_eq.mp he
    | _ => cases he
  exact hlast.rdropWhile

/-- Without resumes and resets no client stores the return value. -/
theorem clientStep_return_kept (h : clientStep s k o = some s')
    (hcalls : ∀ call, (s.client k).call? = some call → triggering call = true)
    (hsync : (s.client k).detachedOnly = false) : s'.asyncCallbackReturn = s.asyncCallbackReturn := by
  cases hpc : s.client k with
  | idle =>
    simp only [clientStep, hpc, Option.some.injEq] at h
    rw [← h]
    rfl
  | trigger time period pc =>
    rw [hpc] at hsync
    simp only [clientStep, hpc] at h
    cases triggerAsyncCallback_step h with
    | storeReturn => cases hsync
    | _ => rfl
  | wait pausing pc =>
    simp only [clientStep, hpc] at h
    cases pc with
    | testRunning =>
      simp only [waitForTriggerCycleToFinish] at h
      split at h <;> obtain rfl := Option.some.inj h <;> rfl
    | lock =>
      obtain ⟨_, h⟩ := Option.ite_none_right_eq_some.mp h
      obtain rfl := Option.some.inj h
      rfl
    | loadTrigger | block | blocked | unlock =>
      obtain rfl := Option.some.inj h
      rfl
  | pause pc =>
    simp only [clientStep, hpc] at h
    cases pc with
    | lock =>
      obtain ⟨_, h⟩ := Option.ite_none_right_eq_some.mp h
      obtain rfl := Option.some.inj h
      rfl
    | _ =>
      obtain rfl := Option.some.inj h
      rfl
  | reset starting pc =>
    have hcall := hcalls _ (by rw [hpc]; rfl)
    cases starting <;> cases hcall
  | stop pc => cases hcalls .stop (by rw [hpc]; rfl)
  | start pc => cases hcalls .start (by rw [hpc]; rfl)
  | init call => cases hcalls (.init call) (by rw [hpc]; rfl)

/-- A step of a client that keeps its return value leaves what the worker has stored. -/
theorem ReturnKept.clientStep (h : ReturnKept s) (he : ClientEffect k s s')
    (hworker : s'.worker = s.worker) (hkept : s'.asyncCallbackReturn = s.asyncCallbackReturn) :
    ReturnKept s' := by
  have hvalues : returnedValues s'.history = returnedValues s.history := by
    rcases he.history with hh | ⟨e, hclient, hh⟩
    · rw [hh]
    · rw [hh, returnedValues_concat]
      cases e <;> first | exact List.append_nil _ | cases hclient
  refine ⟨?_, fun site value hw => ?_⟩
  · have hstored := h.stored
    unfold storedValues at hstored ⊢
    rw [hworker, hvalues, hkept]
    exact hstored
  · rw [hvalues]
    exact h.held site value (hworker ▸ hw)

omit [DecidableEq κ] [Inhabited T] in
theorem AcceptedLast.other (h : AcceptedLast k s) (hclient : s'.client k = s.client k)
    (hh : s'.history = s.history ∨
      ∃ e : Event κ T E, e.client? ≠ some k ∧ s'.history = s.history ++ [e]) :
    AcceptedLast k s' where
  unlocked time period pc hpc := h.unlocked time period pc (hclient ▸ hpc)
  accepted time period pc hpc hs := by
    obtain ⟨accepting, since, hlast⟩ := h.accepted time period pc (hclient ▸ hpc) hs
    rcases hh with hh | ⟨e, he, hh⟩
    · exact ⟨accepting, since, hh ▸ hlast⟩
    · refine ⟨accepting, since ++ [e], ?_⟩
      rw [hh]
      refine hlast.concat fun hopens => he ?_
      cases e with
      | called j _ | accepted j _ _ => exact congrArg some hopens
      | _ => exact hopens.elim

theorem AcceptedLast.own (h : AcceptedLast k s) (hsync : (s.client k).detachedOnly = false)
    (hsync' : (s'.client k).detachedOnly = false) (hstep : clientStep s k o = some s') :
    AcceptedLast k s' := by
  have htrigger : ∀ time period pc', s'.client k = .trigger time period pc' →
      pc'.unlocked = true ∧ (pc'.stored = true → ∃ accepting since,
        LastEvent (Event.Opens k) s'.history accepting (.accepted k time period) since) := by
    intro time period pc' hpc'
    rcases clientStep_to_trigger hstep hpc' with ⟨_, rfl, _⟩ | ⟨pc, hpc, hmove⟩
    · exact ⟨rfl, fun hs => by cases hs⟩
    · have hunlocked := h.unlocked time period pc hpc
      have haccepted := h.accepted time period pc hpc
      rw [hpc] at hsync
      rw [hpc'] at hsync'
      cases hmove with
      | read hread =>
        obtain rfl : _ = pc' := by simpa using hpc'
        cases hread with
        | loadReturn status =>
          cases status with
          | true => cases hunlocked
          | false => exact ⟨rfl, fun hs => by cases hs⟩
        | notPaused => cases hsync
        | _ => exact ⟨rfl, fun hs => by cases hs⟩
      | storeTrigger =>
        obtain rfl : _ = pc' := by simpa using hpc'
        exact ⟨rfl, fun _ => ⟨s.history, [], .concat_self rfl⟩⟩
      | storeTimes | unlock | notify =>
        obtain rfl : _ = pc' := by simpa using hpc'
        exact ⟨rfl, fun _ => haccepted rfl⟩
      | tryLock =>
        obtain rfl : _ = pc' := by simpa using hpc'
        exact ⟨rfl, fun hs => by cases hs⟩
      | predicate result =>
        obtain rfl : _ = pc' := by simpa using hpc'
        cases result <;> exact ⟨rfl, fun hs => by cases hs⟩
      | finish => simp [State.returnWith] at hpc'
      | fault f =>
        obtain rfl : pc = pc' := by simpa [hpc] using hpc'
        exact ⟨hunlocked, haccepted⟩
      | lockResume | storeResume | storeReturn | storePrevious | unlockResume | notifyResume =>
        cases hsync
  exact ⟨fun time period pc hpc => (htrigger time period pc hpc).1,
    fun time period pc hpc => (htrigger time period pc hpc).2⟩

/-- What holds of a handler whose triggers load in time. -/
structure Reports (s : State κ T E) : Prop where
  recorded : ∀ k, CallRecorded k s
  value : ReturnKept s
  accepted : ∀ k, AcceptedLast k s
  reports : Justified ReportsPrevious s.history

theorem Reports.workerEffect (h : Reports s) (hclient : s'.client = s.client)
    (he : WorkerEffect s s') : Reports s' where
  recorded := .afterWorker h.recorded hclient he
  value := h.value.workerEffect he
  accepted k := by
    refine (h.accepted k).other (congrFun hclient k) (he.history.imp id ?_)
    rintro ⟨e, hnone, hh⟩
    exact ⟨e, by rw [hnone]; simp, hh⟩
  reports := by
    rcases he.history with hh | ⟨e, hnone, hh⟩
    · exact hh ▸ h.reports
    · refine hh ▸ justified_concat.mpr ⟨h.reports, ?_⟩
      cases e with
      | returned j result => cases hnone
      | _ => trivial

/-- The value a trigger returns is the one that was stored when it was accepted. -/
theorem Reports.returned (h : Reports s) (hp : LoadsInTime s (.client k))
    (hstep : clientStep s k o = some s') {j : κ} {value : T}
    (hh : s'.history = s.history ++ [.returned j (.pair true value)]) :
    ReportsPrevious s.history (.returned j (.pair true value)) := by
  obtain ⟨rfl, hret, _⟩ := clientStep_returned hstep hh
  generalize hresult : (Result.pair true value : Result T E) = result at hret
  generalize hpc : s.client j = pc at hret
  cases hret with
  | triggered time period status =>
    obtain ⟨rfl, rfl⟩ : true = status ∧ value = s.asyncCallbackReturn := by simpa using hresult
    obtain ⟨accepting, since, hlast⟩ := (h.accepted j).accepted time period _ hpc rfl
    refine ⟨time, period, accepting, since, hlast, ?_⟩
    have hintime := hp (by rw [hpc]; rfl)
    rw [rdropWhile_acceptedBy hlast, returnedValues_concat] at hintime
    rw [h.value.stored, hintime]
    exact congrArg (fun values : List T => values.getLast?.getD default) (List.append_nil _)
  | released time period status value' =>
    obtain ⟨rfl, rfl⟩ : true = status ∧ value = value' := by simpa using hresult
    cases (h.accepted j).unlocked time period _ hpc
  | _ => cases hresult

theorem Reports.clientStep (h : Reports s)
    (hfacts : Started .synchronized triggering s) (hs : ClientStep k s s')
    (hworker : s'.worker = s.worker) (hp : LoadsInTime s (.client k))
    (hstep : clientStep s k o = some s') : Reports s' where
  recorded := .afterClient h.recorded hfacts.steady.params hs hstep
  value := h.value.clientStep hs.effect hworker
    (clientStep_return_kept hstep (hfacts.calls k) (h.recorded k).sync)
  accepted j := by
    by_cases hjk : j = k
    · subst hjk
      exact (h.accepted j).own (h.recorded j).sync
        ((h.recorded j).own hfacts.steady.params hstep).sync hstep
    · refine (h.accepted j).other (hs.others hjk) (hs.effect.history.imp id ?_)
      rintro ⟨e, he, hh⟩
      exact ⟨e, by rw [he]; simpa using Ne.symm hjk, hh⟩
  reports := by
    refine h.reports.step hs.effect.grows fun e hh => ?_
    cases e with
    | returned j result =>
      cases result with
      | pair status value =>
        cases status with
        | true => exact h.returned hp hstep hh
        | false => trivial
      | _ => trivial
    | _ => trivial

/-- **What a successful trigger reports.**  If every accepted trigger loads its return value before
the worker has stored a value that the callback has returned since, then a trigger that returns true
returns the value of the last invocation completed before it was accepted. -/
theorem triggers_report_previous
    (h : Reachable (startedHandler κ T E .synchronized) LoadingInTime s) :
    Justified ReportsPrevious s.history := by
  refine (started_invariant (I := Reports) (fun _ _ _ hp => hp.1) (fun _ => setsUp_of_triggering)
    ?_ ?_ ?_ h).2.reports
  · intro params pauseThread previousTime _
    refine ⟨fun k => ⟨rfl, fun call hcall => nomatch hcall⟩, ⟨rfl, fun site value hw => ?_⟩,
      fun k => ⟨fun time period pc hpc => ?_, fun time period pc hpc => ?_⟩, justified_nil⟩
    · cases hw
    · cases hpc
    · cases hpc
  · exact fun s o s' _ _ hreports _ hclient he => hreports.workerEffect hclient he
  · exact fun s k o s' hfacts _ hreports hp hs hworker _ hstep =>
      hreports.clientStep hfacts hs hworker hp.2 hstep

end Steps

/-- A client triggers, the worker runs a cycle whose callback returns 5, and the client goes on. -/
def triggerAndRun (first worker rest : ℕ) : List (Thread Unit × Oracle Unit Nat Unit) :=
  List.replicate first (.client (), { call := .trigger 1 2, callback := .ok 0 }) ++
    List.replicate worker (.worker, { callback := .ok 5 }) ++
    List.replicate rest (.client (), { call := .trigger 3 4, callback := .ok 0 })

/-- The second trigger reports the first cycle. -/
theorem triggers_report_previous_second :
    ∃ s : State Unit Nat Unit,
      Reachable (startedHandler Unit Nat Unit .synchronized) LoadingInTime s ∧
        s.history.getLast? = some (.returned () (.pair true 5)) ∧
        Justified ReportsPrevious s.history := by
  obtain ⟨s, hs, hp⟩ := exists_reachable_of_exec
    (startedHandler Unit Nat Unit .synchronized) LoadingInTime (triggerAndRun 13 11 13)
    (started {} true 0) (fun s => s.history.getLast? = some (.returned () (.pair true 5)))
    ⟨_, _, _, rfl, rfl⟩ (by decide)
  exact ⟨s, hs, by simpa using hp, triggers_report_previous hs⟩

/-- The worker has finished the cycle before the trigger that has started it loads its return value:
the trigger reports its own cycle. -/
theorem trigger_reports_own :
    ∃ s : State Unit Nat Unit,
      Reachable (startedHandler Unit Nat Unit .synchronized) (Calling triggering) s ∧
        ¬ Justified ReportsPrevious s.history := by
  let before : List (Event Unit Nat Unit) :=
    [.called () (.trigger 1 2), .predicate () true, .accepted () 1 2, .invoked 1 2,
      .callbackReturned 5, .cycleEnded]
  obtain ⟨s, hs, hp⟩ := exists_reachable_of_exec
    (startedHandler Unit Nat Unit .synchronized) (Calling triggering) (triggerAndRun 12 9 1)
    (started {} true 0) (fun s => s.history = before ++ [.returned () (.pair true 5)])
    ⟨_, _, _, rfl, rfl⟩ (by decide)
  refine ⟨s, hs, fun hjustified => ?_⟩
  have hh : s.history = before ++ [.returned () (.pair true 5)] := by simpa using hp
  obtain ⟨time, period, accepting, since, hlast, hvalue⟩ := hjustified before _ [] hh
  have haccepting := congrArg returnedValues (rdropWhile_acceptedBy hlast)
  rw [returnedValues_concat] at haccepting
  have hnone : returnedValues accepting = [] := by
    rw [← List.append_nil (returnedValues accepting)]
    exact haccepting.symm
  rw [lastReturned, hnone] at hvalue
  cases hvalue

end AsyncFunctionHandler
