import RealtimeTools.AsyncHandler.Calls
import RealtimeTools.Interleaving.History

/-!
# Trigger calls under SYNCHRONIZED

With the `SYNCHRONIZED` policy a call of `trigger_async_callback` either stores `trigger_in_progress_`
once and returns true, or stores nothing and returns false or throws.
-/

open Interleaving

namespace AsyncFunctionHandler

variable {κ T E : Type} {s s' : State κ T E} {k : κ} {o : Oracle κ T E}

/-- The call of `k` that was begun last, the history before it, and the events since. -/
abbrev LastCall (k : κ) (history before : List (Event κ T E)) (call : Call)
    (since : List (Event κ T E)) : Prop :=
  LastEvent (fun e => ∃ call, e = .called k call) history before (.called k call) since

/-- Program points of the branches for the other policies. -/
def ClientPc.detachedOnly : ClientPc T → Bool
  | .trigger _ _ .loadPause | .trigger _ _ .lockResume | .trigger _ _ .storeResume
  | .trigger _ _ .storeReturn | .trigger _ _ .storePrevious | .trigger _ _ .unlockResume
  | .trigger _ _ .notifyResume | .pause .testRunning | .pause .storePause | .pause .lock
  | .pause .unlock | .pause .loadPause => true
  | _ => false

/-- The call has stored true into `trigger_in_progress_`. -/
def TriggerPc.stored : TriggerPc T → Bool
  | .storeTimes | .unlock | .notify | .loadReturn true _ | .release true _ => true
  | _ => false

section Steps

variable [DecidableEq κ] [Inhabited T]

/-! ## One step of a trigger -/

/-- What a step of a synchronized trigger of `k` does, at `pc`. -/
inductive TriggerMove (k : κ) (time : Time) (period : Duration) (s s' : State κ T E) :
    TriggerPc T → Prop
  | store (hpc' : s'.client k = .trigger time period .storeTimes)
      (hh : s'.history = s.history ++ [.accepted k time period]) :
      TriggerMove k time period s s' .storeTrigger
  | goOn {pc : TriggerPc T} (pc' : TriggerPc T) (hpc' : s'.client k = .trigger time period pc')
      (hsync : (ClientPc.trigger time period pc').detachedOnly = false) (hne : pc' ≠ .storeTimes)
      (hstored : pc'.stored = pc.stored)
      (hh : s'.history = s.history ∨
        ∃ result, s'.history = s.history ++ [.predicate k result]) :
      TriggerMove k time period s s' pc
  | finish {pc : TriggerPc T} (result : Result T E)
      (hret : Returns s (.trigger time period pc) result) (hpc' : s'.client k = .idle)
      (hh : s'.history = s.history ++ [.returned k result]) : TriggerMove k time period s s' pc

omit [Inhabited T] in
theorem TriggerMove.go {time : Time} {period : Duration} {pc pc' : TriggerPc T}
    (hclient : s'.client = Function.update s.client k (.trigger time period pc'))
    (hh : s'.history = s.history)
    (hsync : (ClientPc.trigger time period pc').detachedOnly = false) (hne : pc' ≠ .storeTimes)
    (hstored : pc'.stored = pc.stored) : TriggerMove k time period s s' pc :=
  .goOn pc' (by rw [hclient, Function.update_self]) hsync hne hstored (.inl hh)

theorem clientStep_trigger {time : Time} {period : Duration} {pc : TriggerPc T}
    (hpolicy : s.params.schedulingPolicy = .synchronized)
    (hpc : s.client k = .trigger time period pc) (hsync : (s.client k).detachedOnly = false)
    (h : clientStep s k o = some s') : TriggerMove k time period s s' pc := by
  rw [hpc] at hsync
  simp only [clientStep, hpc] at h
  cases pc with
  | testInitialized =>
    simp only [triggerAsyncCallback] at h
    split at h <;> obtain rfl := Option.some.inj h
    · exact .go rfl rfl rfl (by simp) rfl
    · exact .finish _ (.notInitialized time period) (Function.update_self k _ _) rfl
  | loadException =>
    obtain rfl := Option.some.inj h
    split
    · exact .go rfl rfl rfl (by simp) rfl
    · exact .go rfl rfl rfl (by simp) rfl
  | rethrow =>
    simp only [triggerAsyncCallback] at h
    split at h <;> obtain rfl := Option.some.inj h
    · rename_i e he
      exact .finish _ (.rethrown time period e he) (Function.update_self k _ _) rfl
    -- Rethrowing a null pointer is the end of the program; nothing moves.
    · exact .goOn .rethrow hpc rfl (by simp) rfl (.inl rfl)
  | testPolicy =>
    obtain rfl := Option.some.inj h
    -- Here the other policies branch off.
    rw [if_neg (by rw [hpolicy]; simp)]
    exact .go rfl rfl rfl (by simp) rfl
  | testRunning =>
    simp only [triggerAsyncCallback] at h
    split at h <;> obtain rfl := Option.some.inj h
    · exact .go rfl rfl rfl (by simp) rfl
    · exact .finish _ (.notStarted time period) (Function.update_self k _ _) rfl
  | tryLock =>
    obtain rfl := Option.some.inj h
    split
    · exact .go rfl rfl rfl (by simp) rfl
    · exact .go rfl rfl rfl (by simp) rfl
  | loadTrigger =>
    obtain rfl := Option.some.inj h
    split
    · exact .go rfl rfl rfl (by simp) rfl
    · exact .go rfl rfl rfl (by simp) rfl
  | predicate =>
    simp only [triggerAsyncCallback] at h
    split at h <;> obtain rfl := Option.some.inj h
    · rename_i result _
      cases result
      · exact .goOn (.loadReturn false true) (by simp) rfl (by simp) rfl (.inr ⟨_, rfl⟩)
      · exact .goOn .storeTrigger (by simp) rfl (by simp) rfl (.inr ⟨_, rfl⟩)
    · exact .go rfl rfl rfl (by simp) rfl
  | storeTrigger =>
    obtain rfl := Option.some.inj h
    exact .store (by simp) rfl
  | storeTimes | unlock =>
    obtain rfl := Option.some.inj h
    exact .go rfl rfl rfl (by simp) rfl
  | notify =>
    obtain ⟨condition, _, rfl⟩ := Option.map_eq_some_iff.mp h
    exact .go rfl rfl rfl (by simp) rfl
  | loadReturn status ownsLock =>
    cases ownsLock with
    | true =>
      obtain rfl := Option.some.inj h
      exact .goOn (.release status s.asyncCallbackReturn) (by simp) rfl (by simp)
        (by cases status <;> rfl) (.inl rfl)
    | false =>
      obtain rfl := Option.some.inj h
      exact .finish _ (.triggered time period status) (Function.update_self k _ _) rfl
  | release status value =>
    obtain rfl := Option.some.inj h
    exact .finish _ (.released time period status value) (Function.update_self k _ _) rfl
  | unwind =>
    obtain rfl := Option.some.inj h
    exact .finish _ (.unwound time period) (Function.update_self k _ _) rfl
  -- These belong to the detached policy.
  | loadPause | lockResume | storeResume | storeReturn | storePrevious | unlockResume
  | notifyResume => cases hsync

/-- A client that is in a trigger has just begun it, or was in it before. -/
theorem clientStep_inTrigger {time : Time} {period : Duration} {pc' : TriggerPc T}
    (hpolicy : s.params.schedulingPolicy = .synchronized)
    (hsync : (s.client k).detachedOnly = false) (hpc' : s'.client k = .trigger time period pc')
    (h : clientStep s k o = some s') :
    (pc' = .testInitialized ∧ s'.history = s.history ++ [.called k (.trigger time period)]) ∨
      ∃ pc, s.client k = .trigger time period pc ∧ TriggerMove k time period s s' pc := by
  cases clientStep_call h with
  | begin _ hentry hh =>
    rw [hpc'] at hentry
    cases hcall : o.call <;> rw [hcall] at hentry <;> cases hentry
    exact .inl ⟨rfl, hcall ▸ hh⟩
  | goOn hcall _ =>
    rw [hpc'] at hcall
    obtain ⟨pc, hpc⟩ := call?_eq_trigger hcall.symm
    exact .inr ⟨pc, hpc, clientStep_trigger hpolicy hpc hsync h⟩
  | finish _ _ hidle _ => cases hidle.symm.trans hpc'

omit [DecidableEq κ] [Inhabited T] in
theorem detachedOnly_of_call {pc : ClientPc T} (htrigger : ∀ t p, pc.call? ≠ some (.trigger t p))
    (hpause : pc.call? ≠ some .pause) : pc.detachedOnly = false := by
  cases pc with
  | trigger time period pc => exact absurd rfl (htrigger time period)
  | pause pc => exact absurd rfl hpause
  | _ => rfl

/-- With the `SYNCHRONIZED` policy a client keeps out of the other branches. -/
theorem clientStep_sync (hpolicy : s.params.schedulingPolicy = .synchronized)
    (hsync : (s.client k).detachedOnly = false) (h : clientStep s k o = some s') :
    (s'.client k).detachedOnly = false := by
  have hother : (∀ t p, (s.client k).call? ≠ some (.trigger t p)) →
      (s.client k).call? ≠ some .pause → (s'.client k).detachedOnly = false := by
    intro htrigger hpause
    cases clientStep_call h with
    | begin _ hentry _ => rw [hentry]; cases o.call <;> rfl
    | goOn hcall _ => exact detachedOnly_of_call (hcall ▸ htrigger) (hcall ▸ hpause)
    | finish _ _ hidle _ => rw [hidle]; rfl
  cases hpc : s.client k with
  | trigger time period pc =>
    cases clientStep_trigger hpolicy hpc hsync h with
    | store hpc' _ => rw [hpc']; rfl
    | goOn pc' hpc' hsync' _ _ _ => rwa [hpc']
    | finish _ _ hpc' _ => rw [hpc']; rfl
  | wait pausing pc =>
    simp only [clientStep, hpc] at h
    cases pc with
    | testRunning =>
      simp only [waitForTriggerCycleToFinish] at h
      split at h <;> obtain rfl := Option.some.inj h <;> simp [State.returnWith, ClientPc.detachedOnly]
    | lock =>
      obtain ⟨_, h⟩ := Option.ite_none_right_eq_some.mp h
      obtain rfl := Option.some.inj h
      simp [ClientPc.detachedOnly]
    | loadTrigger | block | blocked | unlock =>
      obtain rfl := Option.some.inj h
      simp [State.returnWith, ClientPc.detachedOnly]
  | pause pc =>
    rw [hpc] at hsync
    simp only [clientStep, hpc] at h
    cases pc <;> cases hsync
    · obtain rfl := Option.some.inj h
      simp [hpolicy, ClientPc.detachedOnly]
    · obtain rfl := Option.some.inj h
      simp [ClientPc.detachedOnly]
  | reset starting pc =>
    cases starting
    · exact hother (by simp [hpc, ClientPc.call?]) (by simp [hpc, ClientPc.call?])
    · exact hother (by simp [hpc, ClientPc.call?]) (by simp [hpc, ClientPc.call?])
  | idle | stop pc | start pc | init call =>
    exact hother (by simp [hpc, ClientPc.call?]) (by simp [hpc, ClientPc.call?])

/-! ## What the history says about a trigger -/

/-- A trigger is accepted in a call with its arguments, at most once in that call, and the call returns
true if and only if it was. -/
def AcceptedInCall (before : List (Event κ T E)) : Event κ T E → Prop
  | .accepted k time period => ∃ earlier since,
      LastCall k before earlier (.trigger time period) since ∧ .accepted k time period ∉ since
  | .returned k (.pair status _) => ∃ time period earlier since,
      LastCall k before earlier (.trigger time period) since ∧
        (.accepted k time period ∈ since ↔ status = true)
  | _ => True

/-- What the history says about the call `k` is in. -/
structure CallRecorded (k : κ) (s : State κ T E) : Prop where
  sync : (s.client k).detachedOnly = false
  call : ∀ call, (s.client k).call? = some call → ∃ earlier since,
    LastCall k s.history earlier call since ∧
      ∀ time period pc, s.client k = .trigger time period pc →
        (.accepted k time period ∈ since ↔ pc.stored = true)

omit [DecidableEq κ] [Inhabited T] in
/-- An event of another thread leaves the calls of `k` as they are. -/
theorem CallRecorded.other (h : CallRecorded k s) (hclient : s'.client k = s.client k)
    (hh : s'.history = s.history ∨
      ∃ e : Event κ T E, e.client? ≠ some k ∧ s'.history = s.history ++ [e]) :
    CallRecorded k s' where
  sync := hclient ▸ h.sync
  call call hcall := by
    rw [hclient] at hcall ⊢
    obtain ⟨earlier, since, hlast, hiff⟩ := h.call call hcall
    rcases hh with hh | ⟨e, he, hh⟩
    · exact ⟨earlier, since, hh ▸ hlast, hiff⟩
    · refine ⟨earlier, since ++ [e], ?_, fun time period pc hpc => ?_⟩
      · rw [hh]
        refine hlast.concat ?_
        rintro ⟨call, rfl⟩
        exact he rfl
      · rw [← hiff time period pc hpc, List.mem_append, List.mem_singleton]
        refine or_iff_left ?_
        rintro rfl
        exact he rfl

omit [DecidableEq κ] [Inhabited T] in
theorem CallRecorded.inTrigger {time : Time} {period : Duration} {pc : TriggerPc T}
    (h : CallRecorded k s) (hpc : s.client k = .trigger time period pc) : ∃ earlier since,
      LastCall k s.history earlier (.trigger time period) since ∧
        (.accepted k time period ∈ since ↔ pc.stored = true) := by
  obtain ⟨earlier, since, hlast, hiff⟩ := h.call (.trigger time period) (by rw [hpc]; rfl)
  exact ⟨earlier, since, hlast, hiff time period pc hpc⟩

theorem CallRecorded.ownTrigger {time : Time} {period : Duration} {pc' : TriggerPc T}
    (h : CallRecorded k s) (hpolicy : s.params.schedulingPolicy = .synchronized)
    (hpc' : s'.client k = .trigger time period pc') (hstep : clientStep s k o = some s') :
    ∃ earlier since, LastCall k s'.history earlier (.trigger time period) since ∧
      (.accepted k time period ∈ since ↔ pc'.stored = true) := by
  rcases clientStep_inTrigger hpolicy h.sync hpc' hstep with ⟨rfl, hh⟩ | ⟨pc, hpc, hmove⟩
  · exact ⟨s.history, [], hh ▸ .concat_self ⟨_, rfl⟩, by simp [TriggerPc.stored]⟩
  · obtain ⟨earlier, since, hlast, hiff⟩ := h.inTrigger hpc
    cases hmove with
    | store hpc₁ hh =>
      cases hpc'.symm.trans hpc₁
      refine ⟨earlier, since ++ [.accepted k time period], ?_, by simp [TriggerPc.stored]⟩
      rw [hh]
      exact hlast.concat (by simp)
    | goOn pc₁ hpc₁ _ _ hstored hh =>
      cases hpc'.symm.trans hpc₁
      rw [hstored]
      rcases hh with hh | ⟨result, hh⟩
      · exact ⟨earlier, since, hh ▸ hlast, hiff⟩
      · refine ⟨earlier, since ++ [.predicate k result], ?_, ?_⟩
        · rw [hh]
          exact hlast.concat (by simp)
        · rw [← hiff]
          simp
    | finish _ _ hidle _ => cases hpc'.symm.trans hidle

theorem CallRecorded.own (h : CallRecorded k s)
    (hpolicy : s.params.schedulingPolicy = .synchronized) (hstep : clientStep s k o = some s') :
    CallRecorded k s' where
  sync := clientStep_sync hpolicy h.sync hstep
  call call hcall := by
    by_cases htrigger : ∃ time period, call = .trigger time period
    · obtain ⟨time, period, rfl⟩ := htrigger
      obtain ⟨pc', hpc'⟩ := call?_eq_trigger hcall
      obtain ⟨earlier, since, hlast, hiff⟩ := h.ownTrigger hpolicy hpc' hstep
      refine ⟨earlier, since, hlast, fun time' period' pc hpc => ?_⟩
      cases hpc'.symm.trans hpc
      exact hiff
    · have hnone : ∀ {time period pc}, s'.client k ≠ .trigger time period pc := by
        intro time period pc hpc
        rw [hpc] at hcall
        exact htrigger ⟨time, period, (Option.some.inj hcall).symm⟩
      cases clientStep_call hstep with
      | begin _ hentry hh =>
        rw [hentry, call?_entry] at hcall
        obtain rfl := Option.some.inj hcall
        exact ⟨s.history, [], hh ▸ .concat_self ⟨_, rfl⟩, fun _ _ _ hpc => absurd hpc hnone⟩
      | goOn hsame hh =>
        obtain ⟨earlier, since, hlast, _⟩ := h.call call (hsame ▸ hcall)
        rcases hh with hh | ⟨e, he, hh⟩
        · exact ⟨earlier, since, hh ▸ hlast, fun _ _ _ hpc => absurd hpc hnone⟩
        · refine ⟨earlier, since ++ [e], ?_, fun _ _ _ hpc => absurd hpc hnone⟩
          rw [hh]
          refine hlast.concat ?_
          rintro ⟨call, rfl⟩
          exact he trivial
      | finish _ _ hidle _ =>
        rw [hidle] at hcall
        cases hcall

omit [Inhabited T] in
theorem CallRecorded.afterWorker (h : ∀ k, CallRecorded k s) (hclient : s'.client = s.client)
    (hs : WorkerEffect s s') (k : κ) : CallRecorded k s' := by
  refine (h k).other (congrFun hclient k) (hs.history.imp id ?_)
  rintro ⟨e, he, hh⟩
  exact ⟨e, by rw [he]; simp, hh⟩

theorem CallRecorded.afterClient (h : ∀ k, CallRecorded k s)
    (hpolicy : s.params.schedulingPolicy = .synchronized) (hs : ClientStep k s s')
    (hstep : clientStep s k o = some s') (j : κ) : CallRecorded j s' := by
  by_cases hjk : j = k
  · exact hjk ▸ (h k).own hpolicy hstep
  · refine (h j).other (hs.others hjk) (hs.effect.history.imp id ?_)
    rintro ⟨e, he, hh⟩
    exact ⟨e, by rw [he]; simpa using Ne.symm hjk, hh⟩

theorem CallRecorded.acceptedInCall {e : Event κ T E} (h : CallRecorded k s)
    (hs : ClientEffect k s s') (hstep : clientStep s k o = some s')
    (hh : s'.history = s.history ++ [e]) : AcceptedInCall s.history e := by
  cases e with
  | accepted j time period =>
    obtain ⟨rfl, hpc⟩ := hs.accepted hh
    obtain ⟨earlier, since, hlast, hiff⟩ := h.inTrigger hpc
    -- Nothing is stored yet where the store is still ahead.
    refine ⟨earlier, since, hlast, fun hmem => ?_⟩
    cases hiff.mp hmem
  | returned j result =>
    obtain ⟨rfl, hret, _⟩ := clientStep_returned hstep hh
    have hpair : ∀ {time period pc status}, s.client j = .trigger time period pc →
        pc.stored = status → ∃ time period earlier since,
          LastCall j s.history earlier (.trigger time period) since ∧
            (.accepted j time period ∈ since ↔ status = true) := by
      rintro time period pc _ hpc rfl
      exact ⟨time, period, h.inTrigger hpc⟩
    generalize hpc : s.client j = pc at hret
    cases hret with
    | triggered time period status => exact hpair hpc (by cases status <;> rfl)
    | released time period status value => exact hpair hpc (by cases status <;> rfl)
    | _ => trivial
  | _ => trivial

end Steps

end AsyncFunctionHandler
