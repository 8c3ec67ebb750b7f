import RealtimeTools.AsyncHandler.InitialTrigger

/-!
# The end of a pause

A trigger that succeeds under `DETACHED` has found or left `pause_thread_` false.  Under `SYNCHRONIZED`
`trigger_async_callback` starts a cycle without looking at it.
-/

open Interleaving

namespace AsyncFunctionHandler

variable {κ T E : Type} {s s' : State κ T E} {k : κ} {o : Oracle κ T E}

/-- `is_paused()`. -/
def Members.isPaused (m : Members κ T E) : Bool := m.pauseThread

/-- A call that may pause the handler. -/
def Call.mayPause : Call → Bool
  | .pause | .init _ => true
  | _ => false

/-- After a trigger that has returned true the handler is not paused, until the next call of
`pause_execution` or `init`. -/
def PauseEnded (s : State κ T E) : Prop :=
  ∀ before k value after, s.history = before ++ .returned k (.pair true value) :: after →
    (∀ j call, .called j call ∈ after → call.mayPause = false) → s.isPaused = false

/-- The trigger will return true. -/
def TriggerPc.succeeding : TriggerPc T → Bool
  | .storeReturn | .storePrevious | .unlockResume | .notifyResume | .storeTimes | .unlock | .notify
  | .loadReturn true _ | .release true _ => true
  | _ => false

/-- A trigger is accepted in a handler that is not paused. -/
def AcceptsUnpaused (s : State κ T E) (t : Thread κ) (_ : Oracle κ T E) : Prop :=
  match t with
  | .worker => True
  | .client k => (s.client k).accepting = true → s.pauseThread = false

instance (s : State κ T E) : ∀ t o, Decidable (AcceptsUnpaused s t o)
  | .worker, _ => inferInstanceAs (Decidable True)
  | .client _, _ => inferInstanceAs (Decidable (_ → _))

section Steps

variable [DecidableEq κ] [Inhabited T]

/-- The steps that change `pause_thread_`. -/
theorem ClientEffect.pauseThread_cases (h : ClientEffect k s s') :
    s'.pauseThread = s.pauseThread ∨ s'.history = s.history ++ [.resumed k] ∧ s'.pauseThread = false ∨
      s'.history = s.history ++ [.paused k] ∨ ∃ call, s.client k = .init call := by
  cases h with
  | init call hpc _ _ => exact .inr (.inr (.inr ⟨call, hpc⟩))
  | storeResume _ _ hm hh => exact .inr (.inl ⟨hh, by rw [hm]⟩)
  | storePause _ hh => exact .inr (.inr (.inl hh))
  | _ =>
    rename_i hm _
    exact .inl (by rw [hm])

omit [DecidableEq κ] [Inhabited T] in
theorem ClientPc.call?_of_pauses {pc : ClientPc T} (h : pc.pauses = true) :
    pc.call? = some .pause := by
  cases pc with
  | pause pc => rfl
  | _ => cases h

/-- A handler stays unpaused unless a call that may pause it is made. -/
theorem ClientEffect.stays_unpaused (h : ClientEffect k s s') (hstep : clientStep s k o = some s')
    (hnot : ∀ call, (s.client k).call? = some call → call.mayPause = false)
    (hpause : s.pauseThread = false) : s'.pauseThread = false := by
  rcases h.pauseThread_cases with hp | ⟨_, hp⟩ | hh | ⟨call, hpc⟩
  · exact hp.trans hpause
  · exact hp
  · have hpc := (clientStep_records_pause hstep hh).2
    cases hnot .pause (ClientPc.call?_of_pauses hpc)
  · cases hnot (.init call) (by rw [hpc]; rfl)

/-- A trigger that is going to succeed leaves a handler that is not paused. -/
theorem TriggerStep.succeeding {time : Time} {period : Duration} {pc pc' : TriggerPc T}
    (h : TriggerStep k time period s pc s') (hpc : s.client k = .trigger time period pc)
    (hpc' : s'.client k = .trigger time period pc') (hs : pc'.succeeding = true)
    (hold : pc.succeeding = true → s.pauseThread = false)
    (haccept : pc = .storeTrigger → s.pauseThread = false) : s'.pauseThread = false := by
  cases h with
  | read hread =>
    obtain rfl : _ = pc' := by simpa using hpc'
    cases hread with
    | notPaused hp => exact hp
    | loadReturn status =>
      cases status with
      | true => exact hold rfl
      | false => cases hs
    | _ => cases hs
  | storeResume => rfl
  | storeTrigger => exact haccept rfl
  | storeReturn | storePrevious | unlockResume | notifyResume | storeTimes | unlock | notify =>
    exact hold rfl
  | lockResume | tryLock =>
    obtain rfl : _ = pc' := by simpa using hpc'
    cases hs
  | predicate result =>
    obtain rfl : _ = pc' := by simpa using hpc'
    cases result <;> cases hs
  | finish => simp [State.returnWith] at hpc'
  | fault f =>
    obtain rfl : pc = pc' := by simpa [hpc] using hpc'
    exact hold hs

end Steps

/-! ## Runs of one client -/

section Runs

variable [Inhabited T] {s s' : State Unit T E} {o : Oracle Unit T E}

structure PauseEnds (s : State Unit T E) : Prop where
  ended : PauseEnded s
  /-- The call that the client is in was begun after the last return. -/
  call : ∀ call, (s.client ()).call? = some call → ∀ before k result after,
    s.history = before ++ .returned k result :: after → .called () call ∈ after
  succeeding : ∀ time period pc, s.client () = .trigger time period pc → pc.succeeding = true →
    s.pauseThread = false

omit [Inhabited T] in
theorem PauseEnds.workerEffect (h : PauseEnds s) (hclient : s'.client = s.client)
    (he : WorkerEffect s s') : PauseEnds s' := by
  have hpause := he.pauseThread
  -- Where the longer history has a return, the shorter one has it too.
  have hsplit : ∀ {before k result after}, s'.history = before ++ .returned k result :: after →
      ∃ earlier, s.history = before ++ .returned k result :: earlier ∧ ∀ e ∈ earlier, e ∈ after := by
    intro before k result after hh'
    rcases he.history with hh | ⟨e, hnone, hh⟩
    · exact ⟨after, hh ▸ hh', fun _ hmem => hmem⟩
    · rcases split_concat (hh ▸ hh') with ⟨_, rfl, _⟩ | ⟨earlier, rfl, hsame⟩
      · cases hnone
      · exact ⟨earlier, hsame, fun e hmem => List.mem_append_left _ hmem⟩
  refine ⟨?_, ?_, ?_⟩
  · intro before k value after hh' hno
    obtain ⟨earlier, hh, hmem⟩ := hsplit hh'
    exact hpause.trans (h.ended before k value earlier hh fun j call hcall =>
      hno j call (hmem _ hcall))
  · intro call hcall before k result after hh'
    obtain ⟨earlier, hh, hmem⟩ := hsplit hh'
    exact hmem _ (h.call call (hclient ▸ hcall) before k result earlier hh)
  · intro time period pc hpc hs
    exact hpause.trans (h.succeeding time period pc (hclient ▸ hpc) hs)

theorem PauseEnds.call_step (h : PauseEnds s) (hstep : clientStep s () o = some s') :
    ∀ call, (s'.client ()).call? = some call → ∀ before k result after,
      s'.history = before ++ .returned k result :: after → .called () call ∈ after := by
  intro call hcall before k result after hh'
  cases clientStep_call hstep with
  | begin _ hentry hh =>
    rw [hentry, call?_entry] at hcall
    obtain rfl := Option.some.inj hcall
    rcases split_concat (hh ▸ hh') with ⟨_, hreturned, _⟩ | ⟨earlier, rfl, _⟩
    · cases hreturned
    · simp
  | goOn hsame hh =>
    rcases hh with hh | ⟨e, he, hh⟩
    · exact h.call call (hsame ▸ hcall) before k result after (hh ▸ hh')
    · rcases split_concat (hh ▸ hh') with ⟨_, rfl, _⟩ | ⟨earlier, rfl, hsplit⟩
      · exact absurd trivial he
      · exact List.mem_append_left _ (h.call call (hsame ▸ hcall) before k result earlier hsplit)
  | finish _ _ hidle _ =>
    rw [hidle] at hcall
    cases hcall

theorem PauseEnds.succeeding_step (h : PauseEnds s) (hp : AcceptsUnpaused s (.client ()) o)
    (hstep : clientStep s () o = some s') :
    ∀ time period pc, s'.client () = .trigger time period pc → pc.succeeding = true →
      s'.pauseThread = false := by
  intro time period pc' hpc' hs
  rcases clientStep_to_trigger hstep hpc' with ⟨_, rfl, _⟩ | ⟨pc, hpc, hmove⟩
  · cases hs
  · refine hmove.succeeding hpc hpc' hs (h.succeeding time period pc hpc) ?_
    rintro rfl
    exact hp (by rw [hpc]; rfl)

/-- A trigger returns true only from where it was going to succeed. -/
theorem PauseEnds.returned (h : PauseEnds s) (he : ClientEffect () s s')
    (hstep : clientStep s () o = some s') {k : Unit} {value : T}
    (hh : s'.history = s.history ++ [.returned k (.pair true value)]) : s'.pauseThread = false := by
  obtain ⟨_, hret, _⟩ := clientStep_returned hstep hh
  obtain ⟨time, period, pc, hpc, hs⟩ : ∃ time period pc,
      s.client () = .trigger time period pc ∧ pc.succeeding = true := by
    generalize hresult : (Result.pair true value : Result T E) = result at hret
    generalize hpc : s.client () = pc at hret
    cases hret with
    | triggered time period status =>
      obtain ⟨rfl, _⟩ : true = status ∧ _ := by simpa using hresult
      exact ⟨time, period, _, rfl, rfl⟩
    | released time period status _ =>
      obtain ⟨rfl, _⟩ : true = status ∧ _ := by simpa using hresult
      exact ⟨time, period, _, rfl, rfl⟩
    | _ => cases hresult
  refine he.stays_unpaused hstep (fun call hcall => ?_) (h.succeeding time period pc hpc hs)
  rw [hpc] at hcall
  obtain rfl := Option.some.inj hcall
  rfl

theorem PauseEnds.clientStep (h : PauseEnds s) (hp : AcceptsUnpaused s (.client ()) o)
    (he : ClientEffect () s s') (hstep : clientStep s () o = some s') : PauseEnds s' := by
  refine ⟨?_, h.call_step hstep, h.succeeding_step hp hstep⟩
  intro before k value after hh' hno
  -- A return that was there before has been followed by no call that may pause.
  have hkept : ∀ earlier, s.history = before ++ .returned k (.pair true value) :: earlier →
      (∀ e ∈ earlier, e ∈ after) → s'.pauseThread = false := by
    intro earlier hh hmem
    refine he.stays_unpaused hstep (fun call hcall => ?_) ?_
    · exact hno () call (hmem _ (h.call call hcall before k _ earlier hh))
    · exact h.ended before k value earlier hh fun j call hcall => hno j call (hmem _ hcall)
  rcases he.history with hh | ⟨e, _, hh⟩
  · exact hkept after (hh ▸ hh') fun _ hmem => hmem
  · rcases split_concat (hh ▸ hh') with ⟨rfl, rfl, _⟩ | ⟨earlier, rfl, hsplit⟩
    · exact h.returned he hstep hh
    · exact hkept earlier hsplit fun e hmem => List.mem_append_left _ hmem

/-- **A pause ends with the next trigger.**  If every trigger that is accepted finds the handler not
paused, then after a trigger that has returned true it is not paused until `pause_execution` or `init`
is called. -/
theorem pause_ended (h : Reachable (freshHandler Unit T E) AcceptsUnpaused s) : PauseEnded s := by
  have hall : PauseEnds s := by
    refine h.invariant (I := PauseEnds) ?_ ?_
    · rintro s rfl
      refine ⟨fun before k value after hh => ?_, fun call hcall => ?_, fun time period pc hpc => ?_⟩
      · simp [fresh] at hh
      · cases hcall
      · cases hpc
    · intro s t o s' hr hends hp hs
      have hat := fresh_at hr
      have hsound := (step_sound hat hs).guarantee
      cases t with
      | worker =>
        have hw : WorkerStep s s' := hsound
        exact hends.workerEffect hw.client (workerStep_effect (workerStep_of_step hs) (hat .worker))
      | client k =>
        have hcs : ClientStep () s s' := hsound
        exact hends.clientStep hp hcs.effect (clientStep_of_step hs)
  exact hall.ended

end Runs

/-- `init` and `start_thread`, then a trigger. -/
def initStartTrigger (params : AsyncFunctionHandlerParams) (trigger : ℕ) :
    List (Thread Unit × Oracle Unit Nat Unit) :=
  List.replicate 2 (.client (), initWith params) ++ startAndTrigger trigger 0

theorem split_of_getLast? {history : List (Event κ T E)} {e : Event κ T E}
    (h : history.getLast? = some e) : ∃ before, history = before ++ e :: [] :=
  (List.getLast?_eq_some_iff.mp h).imp fun _ hh => hh

/-- Under `DETACHED` the trigger ends the pause that `init` has begun. -/
theorem pause_ended_detached :
    ∃ s : State Unit Nat Unit, Reachable (freshHandler Unit Nat Unit) AcceptsUnpaused s ∧
      .paused () ∉ s.history ∧ s.params.waitUntilInitialTrigger = true ∧ s.isPaused = false := by
  obtain ⟨s, hs, hp⟩ := exists_reachable_of_exec (freshHandler Unit Nat Unit) AcceptsUnpaused
    (initStartTrigger { schedulingPolicy := .detached, clock := true, execRate := 100 } 12) fresh
    (fun s => s.history.getLast? = some (.returned () (.pair true 0)) ∧ .paused () ∉ s.history ∧
      s.params.waitUntilInitialTrigger) rfl (by decide)
  obtain ⟨hlast, hno, hwait⟩ : s.history.getLast? = some (.returned () (.pair true 0)) ∧
      .paused () ∉ s.history ∧ s.params.waitUntilInitialTrigger = true := by simpa using hp
  obtain ⟨before, hsplit⟩ := split_of_getLast? hlast
  refine ⟨s, hs, hno, hwait, pause_ended hs before () 0 [] hsplit fun j call hmem => ?_⟩
  cases hmem

/-- Under `SYNCHRONIZED` it does not: the trigger succeeds and the handler is still paused. -/
theorem pause_not_ended :
    ∃ s : State Unit Nat Unit, Reachable (freshHandler Unit Nat Unit) anyStep s ∧
      s.params.validate = .valid ∧ ¬ PauseEnded s := by
  obtain ⟨s, hs, hp⟩ := exists_reachable_of_exec (freshHandler Unit Nat Unit) anyStep
    (initStartTrigger {} 13) fresh
    (fun s => s.history.getLast? = some (.returned () (.pair true 0)) ∧ s.pauseThread ∧
      s.params.validate = .valid) rfl (by decide)
  obtain ⟨hlast, hpause, hvalid⟩ : s.history.getLast? = some (.returned () (.pair true 0)) ∧
      s.pauseThread = true ∧ s.params.validate = .valid := by simpa using hp
  obtain ⟨before, hsplit⟩ := split_of_getLast? hlast
  refine ⟨s, hs, hvalid, fun hended => ?_⟩
  have hunpaused := hended before () 0 [] hsplit fun j call hmem => by cases hmem
  exact Bool.noConfusion (hpause.symm.trans hunpaused)

end AsyncFunctionHandler
