import RealtimeTools.AsyncHandler.PauseEnds

/-!
# Measured periods

Under `DETACHED` the worker hands the callback the time that has passed since `previous_time_`, and a
resume moves `previous_time_` so that the pause is left out.  Which of these writes was the last one at
an invocation is read off the history.
-/

open Interleaving

namespace AsyncFunctionHandler

variable {κ T E : Type} {s s' : State κ T E} {k : κ} {o : Oracle κ T E} {initial : Bool}
  {params : AsyncFunctionHandlerParams} {history : List (Event κ T E)}

/-! ## What the history says -/

namespace Event

/-- `pause_thread_` after an event. -/
def pauseAfter (paused : Bool) : Event κ T E → Bool
  | .paused _ => true
  | .resumed _ => false
  | _ => paused

/-- A resume is between its two stores. -/
def halfAfter (half : Bool) : Event κ T E → Bool
  | .resumed _ => true
  | .resumeTime _ _ => false
  | _ => half

/-- What the next period is measured from, once there has been an invocation. -/
def baseAfter (syncPeriod : Option Duration) (base : Option Time) : Event κ T E → Option Time
  | .invoked time _ => some time
  | .resumeTime _ now => base.bind fun _ => syncPeriod.map fun p => now - p
  | _ => base

def isResumeTime : Event κ T E → Bool
  | .resumeTime _ _ => true
  | _ => false

end Event

/-- `pause_thread_` after the history, from its value at the start. -/
def pausedAfter (initial : Bool) (history : List (Event κ T E)) : Bool :=
  history.foldl Event.pauseAfter initial

def resumeHalfDone (history : List (Event κ T E)) : Bool :=
  history.foldl Event.halfAfter false

def measuredFrom (syncPeriod : Option Duration) (history : List (Event κ T E)) : Option Time :=
  history.foldl (Event.baseAfter syncPeriod) none

theorem pausedAfter_append {new : List (Event κ T E)} :
    pausedAfter initial (history ++ new) = new.foldl Event.pauseAfter (pausedAfter initial history) :=
  List.foldl_append

theorem resumeHalfDone_append {new : List (Event κ T E)} :
    resumeHalfDone (history ++ new) = new.foldl Event.halfAfter (resumeHalfDone history) :=
  List.foldl_append

theorem measuredFrom_append {sp : Option Duration} {new : List (Event κ T E)} :
    measuredFrom sp (history ++ new) = new.foldl (Event.baseAfter sp) (measuredFrom sp history) :=
  List.foldl_append

/-- The periods chain up.  Without a pause since the last invocation the period is the time since then,
and with a resume it is counted from one period before the last one. -/
def PeriodsChain (params : AsyncFunctionHandlerParams) (initial : Bool)
    (before : List (Event κ T E)) (e : Event κ T E) : Prop :=
  ∀ time period earlier time₁ period₁ between, e = .invoked time period →
    LastEvent (fun e => e.isInvoked = true) before earlier (.invoked time₁ period₁) between →
    ((∀ mid, mid <+: between →
        pausedAfter initial (earlier ++ .invoked time₁ period₁ :: mid) = false) →
      period = time - time₁) ∧
    ((∃ k, .resumed k ∈ between) → ∃ mid k now rest p,
      LastEvent (fun e => e.isResumeTime = true) between mid (.resumeTime k now) rest ∧
        params.period = some p ∧ period = time - (now - p))

/-- What is known where a resume stores, and where an invocation starts. -/
def ResumeOrder (params : AsyncFunctionHandlerParams) (initial : Bool)
    (before : List (Event κ T E)) : Event κ T E → Prop
  | .resumed _ => pausedAfter initial before = true
  | .resumeTime _ _ => params.period.isSome ∧ resumeHalfDone before = true
  | .invoked time period => resumeHalfDone before = false ∧
      ∀ base, measuredFrom params.period before = some base → period = time - base
  | _ => True

theorem exists_resumed_of_half (h : history.foldl Event.halfAfter false = true) :
    ∃ k, .resumed k ∈ history := by
  induction history using List.reverseRecOn with
  | nil => cases h
  | append_singleton history e ih =>
    rw [List.foldl_append] at h
    have hearlier : history.foldl Event.halfAfter false = true → ∃ k, .resumed k ∈ history ++ [e] :=
      fun h => (ih h).imp fun k hmem => List.mem_append_left _ hmem
    cases e with
    | resumed k => exact ⟨k, by simp⟩
    | resumeTime k now => cases h
    | _ => exact hearlier h

/-- A resume that is no longer half done has read the clock. -/
theorem exists_resumeTime_of_resumed (hmem : .resumed k ∈ history)
    (h : history.foldl Event.halfAfter false = false) :
    ∃ e ∈ history, e.isResumeTime = true := by
  by_contra hno
  have hraised : ∀ {later : List (Event κ T E)}, (∀ e ∈ later, e ∈ history) →
      later.foldl Event.halfAfter true = true := by
    intro later hsub
    induction later with
    | nil => rfl
    | cons e later ih =>
      have hlater := ih fun e' he' => hsub e' (List.mem_cons_of_mem _ he')
      cases e with
      | resumeTime j now => exact absurd ⟨_, hsub _ (List.mem_cons_self ..), rfl⟩ hno
      | _ => exact hlater
  obtain ⟨earlier, later, rfl⟩ := List.append_of_mem hmem
  have hup := hraised fun e he => List.mem_append_right earlier (List.mem_cons_of_mem _ he)
  rw [List.foldl_append, List.foldl_cons] at h
  exact Bool.noConfusion (h.symm.trans hup)

theorem foldl_baseAfter_of_not {syncPeriod : Option Duration} {base : Option Time}
    (hinvoked : ∀ e ∈ history, ¬ e.isInvoked = true)
    (htime : ∀ e ∈ history, ¬ e.isResumeTime = true) :
    history.foldl (Event.baseAfter syncPeriod) base = base := by
  rw [List.foldl_ext _ (fun base _ => base) _ fun base e hmem => ?_, List.foldl_fixed]
  cases e with
  | invoked time period => exact absurd rfl (hinvoked _ hmem)
  | resumeTime k now => exact absurd rfl (htime _ hmem)
  | _ => rfl

/-- Measured from the last resume, if there has been one since the last invocation. -/
theorem foldl_baseAfter_of_resume {mid rest : List (Event κ T E)} {now base : Time} {p : Duration}
    (hinvoked : ∀ e ∈ history, ¬ e.isInvoked = true)
    (h : LastEvent (fun e => e.isResumeTime = true) history mid (.resumeTime k now) rest) :
    history.foldl (Event.baseAfter (some p)) (some base) = some (now - p) := by
  have hstill : ∀ (later : List (Event κ T E)) (base : Time), (∀ e ∈ later, ¬ e.isInvoked = true) →
      ∃ base', later.foldl (Event.baseAfter (some p)) (some base) = some base' := by
    intro later base hlater
    induction later generalizing base with
    | nil => exact ⟨base, rfl⟩
    | cons e later ih =>
      have htail := fun e' he' => hlater e' (List.mem_cons_of_mem _ he')
      cases e with
      | invoked time period => exact absurd rfl (hlater _ (List.mem_cons_self ..))
      | _ => exact ih _ htail
  have hsplit := h.split
  subst hsplit
  obtain ⟨base', hmid⟩ := hstill mid base
    fun e hmem => hinvoked e (List.mem_append_left _ hmem)
  rw [List.foldl_append, hmid, List.foldl_cons]
  exact foldl_baseAfter_of_not
    (fun e hmem => hinvoked e (List.mem_append_right _ (List.mem_cons_of_mem _ hmem))) h.last

/-- The periods chain up because a resume that has ended a pause reads the clock before the next
invocation. -/
theorem PeriodsChain.of_order {before : List (Event κ T E)} {e : Event κ T E}
    (h : Justified (ResumeOrder params initial) (before ++ [e])) :
    PeriodsChain params initial before e := by
  rintro time period earlier time₁ period₁ between rfl hlast
  obtain ⟨hbefore, hdone, hperiod⟩ := justified_concat.mp h
  have hsplit := hlast.split
  -- No resume is half done at the last invocation, so what follows begins anew.
  have hstart : resumeHalfDone earlier = false :=
    (hbefore earlier (.invoked time₁ period₁) between hsplit).1
  have hhalf : ∀ mid : List (Event κ T E),
      resumeHalfDone (earlier ++ .invoked time₁ period₁ :: mid) = mid.foldl Event.halfAfter false := by
    intro mid
    rw [resumeHalfDone_append, hstart]
    rfl
  have hbase : measuredFrom params.period before =
      between.foldl (Event.baseAfter params.period) (some time₁) := by
    rw [hsplit, measuredFrom_append]
    rfl
  have horder : ∀ {mid e rest}, between = mid ++ e :: rest →
      ResumeOrder params initial (earlier ++ .invoked time₁ period₁ :: mid) e := by
    rintro mid e rest rfl
    exact hbefore _ e rest (by rw [hsplit, List.append_assoc, List.cons_append])
  constructor
  · intro hunpaused
    refine hperiod time₁ (hbase.trans (foldl_baseAfter_of_not hlast.last fun e hmem htime => ?_))
    obtain ⟨mid, rest, hmid⟩ := List.append_of_mem hmem
    cases e with
    | resumeTime k now =>
      obtain ⟨_, hmidHalf⟩ := horder hmid
      obtain ⟨j, hj⟩ := exists_resumed_of_half ((hhalf mid).symm.trans hmidHalf)
      obtain ⟨mid₁, mid₂, rfl⟩ := List.append_of_mem hj
      rw [List.append_assoc, List.cons_append] at hmid
      have hpaused : pausedAfter initial (earlier ++ .invoked time₁ period₁ :: mid₁) = true :=
        horder hmid
      have hunpaused₁ := hunpaused mid₁ ⟨_, hmid.symm⟩
      exact Bool.noConfusion (hpaused.symm.trans hunpaused₁)
    | _ => cases htime
  · rintro ⟨k, hmem⟩
    have hbetween : between.foldl Event.halfAfter false = false := by
      rw [← hhalf between, ← hsplit]
      exact hdone
    obtain ⟨e, he, htime⟩ := exists_resumeTime_of_resumed hmem hbetween
    obtain ⟨mid, e', rest, htimes⟩ :=
      LastEvent.exists_of_mem (p := fun e => e.isResumeTime = true) he htime
    have hholds := htimes.holds
    cases e' with
    | resumeTime j now =>
      obtain ⟨hsome, _⟩ := horder htimes.split
      obtain ⟨p, hp⟩ := Option.isSome_iff_exists.mp hsome
      refine ⟨mid, j, now, rest, p, htimes, hp, hperiod _ (hbase.trans ?_)⟩
      rw [hp]
      exact foldl_baseAfter_of_resume hlast.last htimes
    | _ => cases hholds

/-! ## What a step does -/

/-- Between the two stores of a resume. -/
def ClientPc.amidResume : ClientPc T → Bool
  | .trigger _ _ .storeReturn | .trigger _ _ .storePrevious => true
  | _ => false

/-- A trigger has seen `pause_thread_` set and is about to clear it. -/
def ClientPc.toResume : ClientPc T → Bool
  | .trigger _ _ .lockResume | .trigger _ _ .storeResume => true
  | _ => false

/-- Before the loop of `execute_detached_callback`. -/
def WorkerPc.early : WorkerPc T E → Bool
  | .start | .prologue _ => true
  | _ => false

section Steps

variable [DecidableEq κ] [Inhabited T]

/-- `pause_thread_` follows the history. -/
theorem ClientEffect.pauseAfter (h : ClientEffect k s s') (hno : ∀ call, s.client k ≠ .init call) :
    ∃ new, s'.history = s.history ++ new ∧
      s'.pauseThread = new.foldl Event.pauseAfter s.pauseThread := by
  have hsame : ∀ {s' : State κ T E}, s'.history = s.history → s'.pauseThread = s.pauseThread →
      ∃ new, s'.history = s.history ++ new ∧
        s'.pauseThread = new.foldl Event.pauseAfter s.pauseThread :=
    fun hh hp => ⟨[], by rw [hh, List.append_nil], hp⟩
  have hcall : ∀ {s' : State κ T E}, CallHistory k s s' → s'.pauseThread = s.pauseThread →
      ∃ new, s'.history = s.history ++ new ∧
        s'.pauseThread = new.foldl Event.pauseAfter s.pauseThread := by
    rintro s' (hh | ⟨e, he, hh⟩) hp
    · exact hsame hh hp
    · refine ⟨[e], hh, ?_⟩
      cases e with
      | called j call | returned j result | predicate j result => exact hp
      | _ => exact he.elim
  cases h with
  | quiet hm hh | unlock _ hm hh | join _ hm hh | spawn hm hh => exact hcall hh (by rw [hm])
  | init call hpc _ _ => exact absurd hpc (hno call)
  | storeTrigger _ _ _ _ _ _ hm hh | storeResume _ _ hm hh | storePrevious _ _ _ hm hh
  | storePause hm hh | resetException _ hm hh => exact ⟨_, hh, by rw [hm]; rfl⟩
  | _ =>
    rename_i hm hh
    exact hsame hh (by rw [hm])

theorem TriggerStep.halfAfter {time : Time} {period : Duration} {pc : TriggerPc T}
    (h : TriggerStep k time period s pc s') (hpc : s.client k = .trigger time period pc) :
    ∃ new, s'.history = s.history ++ new ∧
      (s'.client k).amidResume = new.foldl Event.halfAfter (s.client k).amidResume := by
  rw [hpc]
  cases h with
  | storeResume | storePrevious _ _ _ => exact ⟨[_], rfl, by simp [ClientPc.amidResume, Event.halfAfter]⟩
  | predicate result => exact ⟨[_], rfl, by cases result <;> simp [ClientPc.amidResume, Event.halfAfter]⟩
  | storeTrigger => exact ⟨[_], rfl, by simp [ClientPc.amidResume, Event.halfAfter]⟩
  | read hread =>
    refine ⟨[], (List.append_nil _).symm, ?_⟩
    cases hread <;> simp [ClientPc.amidResume]
  | finish result mutex hret =>
    refine ⟨[_], rfl, ?_⟩
    cases hret <;> simp [State.returnWith, ClientPc.amidResume, Event.halfAfter]
  | fault f => exact ⟨[], (List.append_nil _).symm, by simp [hpc]⟩
  | _ => exact ⟨[], (List.append_nil _).symm, by simp [ClientPc.amidResume]⟩

/-- Whether a client is in the middle of a resume follows the history. -/
theorem clientStep_halfAfter (h : clientStep s k o = some s') (he : ClientEffect k s s') :
    ∃ new, s'.history = s.history ++ new ∧
      (s'.client k).amidResume = new.foldl Event.halfAfter (s.client k).amidResume := by
  by_cases htrigger : ∃ time period pc, s.client k = .trigger time period pc
  · obtain ⟨time, period, pc, hpc⟩ := htrigger
    have hstep := h
    simp only [clientStep, hpc] at hstep
    exact (triggerAsyncCallback_step hstep).halfAfter hpc
  -- Elsewhere no resume is stored, and a trigger is only begun.
  · have hbefore : (s.client k).amidResume = false := by
      cases hpc : s.client k with
      | trigger time period pc => exact absurd ⟨time, period, pc, hpc⟩ htrigger
      | _ => rfl
    have hafter : (s'.client k).amidResume = false := by
      cases hpc' : s'.client k with
      | trigger time period pc' =>
        rcases clientStep_to_trigger h hpc' with ⟨_, rfl, _⟩ | ⟨pc, hpc, _⟩
        · rfl
        · exact absurd ⟨time, period, pc, hpc⟩ htrigger
      | _ => rfl
    rw [hbefore, hafter]
    rcases he.grows with hh | ⟨e, hh⟩
    · exact ⟨[], by rw [hh, List.append_nil], rfl⟩
    · refine ⟨[e], hh, ?_⟩
      have hrecorded := clientStep_records h hh
      cases e with
      | resumed j =>
        obtain ⟨_, time, period, hpc⟩ := hrecorded
        exact absurd ⟨time, period, _, hpc⟩ htrigger
      | _ => rfl

/-- The second store of a resume. -/
theorem clientStep_resumeTime {j : κ} {now : Time} (h : clientStep s k o = some s')
    (hh : s'.history = s.history ++ [.resumeTime j now]) :
    j = k ∧ (s.client k).amidResume = true ∧
      ∃ p, s.params.period = some p ∧ s'.previousTime = now - p := by
  obtain ⟨rfl, time, period, hpc⟩ := clientStep_records h hh
  refine ⟨rfl, by rw [hpc]; rfl, ?_⟩
  simp only [clientStep, hpc] at h
  cases triggerAsyncCallback_step h with
  | storePrevious now' p hperiod =>
    obtain rfl : now' = now := by simpa [State.record, State.goto] using hh
    exact ⟨p, hperiod, rfl⟩
  | fault f => simp at hh
  | finish result mutex hret => cases hret
  | read hread => cases hread

/-- Of the times, a client stores `previous_time_` in a resume, and the arguments of the callback under
the mutex. -/
theorem ClientEffect.times (h : ClientEffect k s s') (hno : ∀ call, s.client k ≠ .init call) :
    (∃ now, Owns (.client k) s ∧ s'.history = s.history ++ [.resumeTime k now]) ∨
      (s'.previousTime = s.previousTime ∧
        (Owns (.client k) s ∨ (s'.currentCallbackTime = s.currentCallbackTime ∧
          s'.currentCallbackPeriod = s.currentCallbackPeriod)) ∧
        (s'.history = s.history ∨
          ∃ e, e.isResumeTime = false ∧ e.isInvoked = false ∧ s'.history = s.history ++ [e])) := by
  have hcall : ∀ {s' : State κ T E}, CallHistory k s s' → s'.history = s.history ∨
      ∃ e : Event κ T E, e.isResumeTime = false ∧ e.isInvoked = false ∧
        s'.history = s.history ++ [e] := by
    rintro s' (hh | ⟨e, he, hh⟩)
    · exact .inl hh
    · refine .inr ⟨e, ?_, ?_, hh⟩
      · cases e <;> first | rfl | exact he.elim
      · cases e <;> first | rfl | exact he.elim
  cases h with
  | storePrevious now p hown _ hh => exact .inl ⟨now, hown, hh⟩
  | init call hpc _ _ => exact absurd hpc (hno call)
  | quiet hm hh | unlock _ hm hh | join _ hm hh | spawn hm hh =>
    exact .inr ⟨by rw [hm], .inr ⟨by rw [hm], by rw [hm]⟩, hcall hh⟩
  | storeTrigger _ _ _ _ _ _ hm hh | storeResume _ _ hm hh | storePause hm hh
  | resetException _ hm hh =>
    exact .inr ⟨by rw [hm], .inr ⟨by rw [hm], by rw [hm]⟩, .inr ⟨_, rfl, rfl, hh⟩⟩
  | storeTimes _ _ hown _ hm hh | resetTimes hown _ hm hh =>
    exact .inr ⟨by rw [hm], .inl hown, .inl hh⟩
  | _ =>
    rename_i hm hh
    exact .inr ⟨by rw [hm], .inr ⟨by rw [hm], by rw [hm]⟩, .inl hh⟩

end Steps

/-! ### The worker -/

/-- The arguments of the callback are measured, and it is invoked next. -/
def WorkerPc.measured : WorkerPc T E → Bool
  | .loop .detached .invoke => true
  | _ => false

/-- What a step of the worker does to the times. -/
inductive TimesStep (s s' : State κ T E) : Prop
  | keep (hmeasured : s'.worker.measured = s.worker.measured)
      (hearly : s'.worker.early = true → s.worker.early = true)
      (hprevious : s'.previousTime = s.previousTime)
      (htime : s'.currentCallbackTime = s.currentCallbackTime)
      (hperiod : s'.currentCallbackPeriod = s.currentCallbackPeriod)
      (hh : s'.history = s.history ∨
        ∃ e, e.client? = none ∧ e.isInvoked = false ∧ s'.history = s.history ++ [e])
  | read (hearly : s.worker.early = true) (hmeasured : s'.worker.measured = false)
      (hh : s'.history = s.history)
  | measure (hbefore : s.worker.measured = false) (hmeasured : s'.worker.measured = true)
      (hearly : s'.worker.early = false)
      (htime : s'.currentCallbackTime = s'.previousTime)
      (hperiod : s'.currentCallbackPeriod = s'.currentCallbackTime - s.previousTime)
      (hh : s'.history = s.history)
  | invoke (hbefore : s.worker.measured = true) (hmeasured : s'.worker.measured = false)
      (hearly : s'.worker.early = false) (hprevious : s'.previousTime = s.previousTime)
      (hh : s'.history = s.history ++ [.invoked s.currentCallbackTime s.currentCallbackPeriod])

theorem QuietMove.measured {pc pc' : WorkerPc T E} (h : QuietMove s pc pc') :
    pc'.measured = pc.measured ∧ (pc'.early = true → pc.early = true) := by
  cases h with
  | firstTrue site _ | firstFalse site _ | stopTrue site _ | stopFalse site _ =>
    rcases site with _ | _ | _ <;> exact ⟨rfl, id⟩
  | leave site _ | enter site _ | stopping site _ | running site _ => cases site <;> exact ⟨rfl, id⟩
  | _ => first | exact ⟨rfl, id⟩ | exact ⟨rfl, fun _ => rfl⟩

theorem WorkerEffect.times [DecidableEq κ] (h : WorkerEffect s s')
    (hfollows : s.worker.Follows .detached) : TimesStep s s' := by
  cases h with
  | quiet hpc hm hh =>
    obtain ⟨hmeasured, hearly⟩ := hpc.measured
    exact .keep hmeasured hearly (by rw [hm]) (by rw [hm]) (by rw [hm]) (.inl hh)
  | fault hpc hm hh =>
    exact .keep (by rw [hpc]) (by rw [hpc]; exact id) (by rw [hm]) (by rw [hm]) (by rw [hm]) (.inl hh)
  | lock site hpc hpc' _ hm hh | wake site hpc hpc' hm hh =>
    refine .keep ?_ ?_ (by rw [hm]) (by rw [hm]) (by rw [hm]) (.inl hh)
    · rw [hpc, hpc']
      rcases site with _ | _ | _ <;> rfl
    · rw [hpc, hpc']
      cases site <;> exact id
  | block site hpc hpc' _ _ hm hh =>
    refine .keep ?_ ?_ (by rw [hm]) (by rw [hm]) (by rw [hm]) (.inl hh)
    · rw [hpc, hpc']
      rcases site with _ | _ | _ <;> rfl
    · rw [hpc, hpc']
      cases site <;> exact id
  | prologueUnlock hpc hpc' _ hm hh =>
    exact .keep (by rw [hpc, hpc']; rfl) (by rw [hpc, hpc']; exact id) (by rw [hm]) (by rw [hm])
      (by rw [hm]) (.inl hh)
  | readPrevious now hpc hpc' hm hh =>
    exact .read (by rw [hpc]; rfl) (by rw [hpc']; rfl) hh
  | measure now hpc hpc' _ hm hh =>
    exact .measure (by rw [hpc]; rfl) (by rw [hpc']; rfl) (by rw [hpc']; rfl) (by rw [hm])
      (by rw [hm]) hh
  | invoke site hpc hpc' _ _ hm hh =>
    cases site with
    | synchronized =>
      rw [hpc] at hfollows
      cases hfollows
    | detached =>
      exact .invoke (by rw [hpc]; rfl) (by rw [hpc']; rfl) (by rw [hpc']; rfl) (by rw [hm]) hh
  | callbackReturned site value hpc hpc' _ _ hm hh | callbackThrew site value hpc hpc' _ _ hm hh
  | clear site hpc hpc' _ _ hm hh =>
    refine .keep ?_ ?_ (by rw [hm]) (by rw [hm]) (by rw [hm]) (.inr ⟨_, rfl, rfl, hh⟩)
    · rw [hpc, hpc']
      cases site <;> rfl
    · rw [hpc, hpc']
      exact id
  | storeReturn site value hpc hpc' _ _ hm hh | storeException site value hpc hpc' _ _ hm hh =>
    refine .keep ?_ ?_ (by rw [hm]) (by rw [hm]) (by rw [hm]) (.inl hh)
    · rw [hpc, hpc']
      cases site <;> rfl
    · rw [hpc, hpc']
      exact id
  | clearStopped site hpc hpc' _ hm hh | unlock site hpc hpc' _ _ hm hh
  | notifyAll site hpc hpc' hm hh =>
    refine .keep ?_ ?_ (by rw [hm]) (by rw [hm]) (by rw [hm]) (.inl hh)
    · rw [hpc, hpc']
      cases site <;> rfl
    · rw [hpc, hpc']
      exact id

/-! ## Runs -/

/-- `previous_time_` is what the next period is measured from, and at an invocation that period has
been taken. -/
structure Measures (base? : Option Time) (s : State κ T E) : Prop where
  early : s.worker.early = true → base? = none
  previous : s.worker.measured = false → ∀ base, base? = some base → s.previousTime = base
  measured : s.worker.measured = true → s.currentCallbackTime = s.previousTime ∧
    ∀ base, base? = some base → s.currentCallbackPeriod = s.currentCallbackTime - base

theorem measuredFrom_same {sp : Option Duration} {e : Event κ T E} (ht : e.isResumeTime = false)
    (hi : e.isInvoked = false) :
    measuredFrom sp (history ++ [e]) = measuredFrom sp history := by
  rw [measuredFrom_append]
  cases e with
  | resumeTime k now => cases ht
  | invoked time period => cases hi
  | _ => rfl

theorem Measures.timesStep {sp : Option Duration} (h : Measures (measuredFrom sp s.history) s)
    (hs : TimesStep s s') : Measures (measuredFrom sp s'.history) s' := by
  cases hs with
  | keep hmeasured hearly hprevious htime hperiod hh =>
    have hbase : measuredFrom sp s'.history = measuredFrom sp s.history := by
      rcases hh with hh | ⟨e, he, hi, hh⟩
      · rw [hh]
      · rw [hh]
        exact measuredFrom_same (by cases e <;> first | rfl | cases he) hi
    rw [hbase]
    refine ⟨fun he => h.early (hearly he), fun hm base hb => ?_, fun hm => ?_⟩
    · exact hprevious.trans (h.previous (hmeasured ▸ hm) base hb)
    · obtain ⟨hcurrent, hdue⟩ := h.measured (hmeasured ▸ hm)
      rw [htime, hprevious, hperiod]
      exact ⟨hcurrent, hdue⟩
  | read hearly hmeasured hh =>
    rw [hh, h.early hearly]
    refine ⟨fun _ => rfl, fun _ base hb => ?_, fun hm => Bool.noConfusion (hmeasured.symm.trans hm)⟩
    cases hb
  | measure hbefore hmeasured hearly htime hperiod hh =>
    rw [hh]
    refine ⟨fun he => Bool.noConfusion (hearly.symm.trans he),
      fun hm => Bool.noConfusion (hmeasured.symm.trans hm), fun _ => ⟨htime, fun base hb => ?_⟩⟩
    rw [hperiod, h.previous hbefore base hb]
  | invoke hbefore hmeasured hearly hprevious hh =>
    have hbase : measuredFrom sp s'.history = some s.currentCallbackTime := by
      rw [hh, measuredFrom_append]
      rfl
    rw [hbase]
    refine ⟨fun he => Bool.noConfusion (hearly.symm.trans he), fun _ base hb => ?_,
      fun hm => Bool.noConfusion (hmeasured.symm.trans hm)⟩
    rw [← Option.some.inj hb, (h.measured hbefore).1]
    exact hprevious

theorem owns_of_measured (hat : At .worker s) (h : s.worker.measured = true) : Owns .worker s := by
  have hpc : WorkerPcAt s s.worker := hat.1
  unfold WorkerPc.measured at h
  split at h
  · rename_i hw
    rw [hw] at hpc
    exact hpc.1
  · cases h

theorem owns_of_amidResume (hat : At (.client k) s) (h : (s.client k).amidResume = true) :
    Owns (.client k) s := by
  have hpc : ClientPcAt k s (s.client k) := hat
  unfold ClientPc.amidResume at h
  split at h
  · rename_i hc
    rw [hc] at hpc
    exact hpc
  · rename_i hc
    rw [hc] at hpc
    exact hpc
  · cases h

/-- No client owns the mutex when the callback is about to be invoked. -/
theorem not_owns_of_measured (hat : At .worker s) (h : s.worker.measured = true) :
    ¬ Owns (.client k) s := by
  have hown : s.asyncMtx = some .worker := owns_of_measured hat h
  intro hclient
  cases hown.symm.trans hclient

section Runs

variable [DecidableEq κ] [Inhabited T]

theorem Measures.clientStep (h : Measures (measuredFrom s.params.period s.history) s)
    (hat : At .worker s) (he : ClientEffect k s s') (hno : ∀ call, s.client k ≠ .init call)
    (hworker : s'.worker = s.worker) (hstep : clientStep s k o = some s') :
    Measures (measuredFrom s.params.period s'.history) s' := by
  rcases he.times hno with ⟨now, hown, hh⟩ | ⟨hprevious, hcurrent, hh⟩
  · obtain ⟨_, _, p, hp, hprevious⟩ := clientStep_resumeTime hstep hh
    have hbase : measuredFrom s.params.period s'.history =
        (measuredFrom s.params.period s.history).map fun _ => now - p := by
      rw [hh, measuredFrom_append, hp]
      cases measuredFrom (some p) s.history <;> rfl
    rw [hbase]
    refine ⟨fun hearly => ?_, fun _ base hb => ?_, fun hm => ?_⟩
    · rw [h.early (hworker ▸ hearly)]
      rfl
    · obtain ⟨_, _, rfl⟩ := Option.map_eq_some_iff.mp hb
      exact hprevious
    · exact absurd hown (not_owns_of_measured hat (hworker ▸ hm))
  · have hbase : measuredFrom s.params.period s'.history =
        measuredFrom s.params.period s.history := by
      rcases hh with hh | ⟨e, ht, hi, hh⟩
      · rw [hh]
      · rw [hh]
        exact measuredFrom_same ht hi
    rw [hbase]
    refine ⟨fun hearly => h.early (hworker ▸ hearly), fun hm base hb => ?_, fun hm => ?_⟩
    · exact hprevious.trans (h.previous (hworker ▸ hm) base hb)
    · have hm : s.worker.measured = true := hworker ▸ hm
      rcases hcurrent with hown | ⟨htime, hperiod⟩
      · exact absurd hown (not_owns_of_measured hat hm)
      · rw [htime, hperiod, hprevious]
        exact h.measured hm

def Call.isTrigger : Call → Bool
  | .trigger _ _ => true
  | _ => false

/-- Only `k₀` calls `trigger_async_callback`. -/
def TriggeredBy (k₀ : κ) (s : State κ T E) (t : Thread κ) (o : Oracle κ T E) : Prop :=
  match t with
  | .worker => True
  | .client k => s.client k = .idle → o.call.isTrigger = true → k = k₀

/-- The invariant of a run with one triggering client. -/
structure OneTrigger (k₀ : κ) (params : AsyncFunctionHandlerParams) (initial : Bool)
    (s : State κ T E) : Prop where
  params_eq : s.params = params
  paused : s.pauseThread = pausedAfter initial s.history
  callers : ∀ k time period pc, s.client k = .trigger time period pc → k = k₀
  toResume : ∀ k, (s.client k).toResume = true → s.pauseThread = true
  half : resumeHalfDone s.history = (s.client k₀).amidResume
  measures : Measures (measuredFrom params.period s.history) s
  ordered : Justified (ResumeOrder params initial) s.history

omit [Inhabited T] in
theorem OneTrigger.workerEffect {k₀ : κ} (h : OneTrigger k₀ params initial s)
    (hfacts : Started .detached running s) (hclient : s'.client = s.client)
    (he : WorkerEffect s s') : OneTrigger k₀ params initial s' where
  params_eq := by
    rw [← h.params_eq]
    cases he <;> rename_i hm _ <;> rw [hm]
  paused := by
    rw [he.pauseThread, h.paused]
    rcases he.history with hh | ⟨e, hnone, hh⟩
    · rw [hh]
    · rw [hh, pausedAfter_append]
      cases e <;> first | rfl | cases hnone
  callers k time period pc hpc := h.callers k time period pc (hclient ▸ hpc)
  toResume k hk := he.pauseThread.trans (h.toResume k (hclient ▸ hk))
  half := by
    rw [hclient, ← h.half]
    rcases he.history with hh | ⟨e, hnone, hh⟩
    · rw [hh]
    · rw [hh, resumeHalfDone_append]
      cases e <;> first | rfl | cases hnone
  measures := h.measures.timesStep (he.times hfacts.steady.worker)
  ordered := by
    refine h.ordered.step he.grows fun e hh => ?_
    cases he.times hfacts.steady.worker with
    | keep _ _ _ _ _ hh' =>
      rcases hh' with hh' | ⟨e', hnone, hi, hh'⟩
      · simp [hh'] at hh
      · obtain rfl : e' = e := by simpa [hh'] using hh
        cases e' <;> trivial
    | read _ _ hh' | measure _ _ _ _ _ hh' => simp [hh'] at hh
    | invoke hbefore _ _ _ hh' =>
      obtain rfl : Event.invoked s.currentCallbackTime s.currentCallbackPeriod = e := by
        simpa [hh'] using hh
      refine ⟨?_, (h.measures.measured hbefore).2⟩
      -- A client in the middle of a resume would own the mutex.
      rw [h.half, ← Bool.not_eq_true]
      intro hamid
      exact not_owns_of_measured (hfacts.at_ .worker) hbefore
        (owns_of_amidResume (hfacts.at_ (.client k₀)) hamid)

theorem OneTrigger.callers_step {k₀ : κ} (h : OneTrigger k₀ params initial s)
    (hs : ClientStep k s s') (hp : TriggeredBy k₀ s (.client k) o)
    (hstep : clientStep s k o = some s') (j : κ) (time : Time) (period : Duration) (pc : TriggerPc T)
    (hpc : s'.client j = .trigger time period pc) : j = k₀ := by
  by_cases hjk : j = k
  · subst hjk
    rcases clientStep_to_trigger hstep hpc with ⟨hidle, _, _⟩ | ⟨pc₁, hpc₁, _⟩
    · refine hp hidle ?_
      simp only [clientStep, hidle, Option.some.injEq] at hstep
      rw [← hstep, State.client_record, State.client_goto] at hpc
      cases hcall : o.call <;> rw [hcall] at hpc <;> first | rfl | cases hpc
    · exact h.callers j time period pc₁ hpc₁
  · exact h.callers j time period pc (by rw [← hs.others hjk]; exact hpc)

theorem OneTrigger.toResume_step {k₀ : κ} (h : OneTrigger k₀ params initial s)
    (hs : ClientStep k s s') (hno : ∀ call, s.client k ≠ .init call)
    (hstep : clientStep s k o = some s') (j : κ) (hj : (s'.client j).toResume = true) :
    s'.pauseThread = true := by
  by_cases hjk : j = k
  · subst hjk
    cases hpc' : s'.client j with
    | trigger time period pc' =>
      rw [hpc'] at hj
      rcases clientStep_to_trigger hstep hpc' with ⟨_, rfl, _⟩ | ⟨pc, hpc, hmove⟩
      · cases hj
      · cases hmove with
        | read hread =>
          obtain rfl : _ = pc' := by simpa using hpc'
          cases hread with
          | paused hpaused => exact hpaused
          | _ => cases hj
        | lockResume _ => exact h.toResume j (by rw [hpc]; rfl)
        | fault f =>
          obtain rfl : pc = pc' := by simpa [hpc] using hpc'
          exact h.toResume j (by rw [hpc]; exact hj)
        | finish => simp [State.returnWith] at hpc'
        | predicate result =>
          obtain rfl : _ = pc' := by simpa using hpc'
          cases result <;> cases hj
        | _ =>
          obtain rfl : _ = pc' := by simpa using hpc'
          cases hj
    | _ => rw [hpc'] at hj; cases hj
  · rw [hs.others hjk] at hj
    rcases hs.effect.pauseThread hno (h.toResume j hj) with hp | hh
    · exact hp
    -- Only the one trigger could have ended the pause.
    · obtain ⟨_, time, period, hpc⟩ := clientStep_records hstep hh
      have hk := h.callers k time period _ hpc
      cases hpc' : s.client j with
      | trigger time' period' pc' => exact absurd ((h.callers j _ _ _ hpc').trans hk.symm) hjk
      | _ => rw [hpc'] at hj; cases hj

theorem OneTrigger.half_step {k₀ : κ} (h : OneTrigger k₀ params initial s)
    (hs : ClientStep k s s') (hstep : clientStep s k o = some s') :
    resumeHalfDone s'.history = (s'.client k₀).amidResume := by
  by_cases hk : k = k₀
  · subst hk
    obtain ⟨new, hh, hhalf⟩ := clientStep_halfAfter hstep hs.effect
    rw [hh, resumeHalfDone_append, h.half, hhalf]
  · rw [hs.others (Ne.symm hk), ← h.half]
    rcases hs.effect.history with hh | ⟨e, _, hh⟩
    · rw [hh]
    · have hrecorded := clientStep_records hstep hh
      rw [hh, resumeHalfDone_append]
      cases e with
      | resumed j =>
        obtain ⟨_, time, period, hpc⟩ := hrecorded
        exact absurd (h.callers k time period _ hpc) hk
      | resumeTime j now =>
        obtain ⟨_, time, period, hpc⟩ := hrecorded
        exact absurd (h.callers k time period _ hpc) hk
      | _ => rfl

theorem OneTrigger.clientStep {k₀ : κ} (h : OneTrigger k₀ params initial s)
    (hfacts : Started .detached running s) (hp : TriggeredBy k₀ s (.client k) o)
    (hs : ClientStep k s s') (hworker : s'.worker = s.worker) (hno : NotSettingUp k s)
    (hstep : clientStep s k o = some s') : OneTrigger k₀ params initial s' where
  params_eq := (hs.effect.params hno.not_init).trans h.params_eq
  paused := by
    obtain ⟨new, hh, hpause⟩ := hs.effect.pauseAfter hno.not_init
    rw [hh, pausedAfter_append, ← h.paused, hpause]
  callers := h.callers_step hs hp hstep
  toResume := h.toResume_step hs hno.not_init hstep
  half := h.half_step hs hstep
  measures := by
    have hmeasures := h.measures
    rw [← h.params_eq] at hmeasures ⊢
    exact hmeasures.clientStep (hfacts.at_ .worker) hs.effect hno.not_init hworker hstep
  ordered := by
    refine h.ordered.step hs.effect.grows fun e hh => ?_
    have hrecorded := clientStep_records hstep hh
    cases e with
    | resumed j =>
      obtain ⟨_, time, period, hpc⟩ := hrecorded
      have hpause := h.toResume k (by rw [hpc]; rfl)
      exact h.paused.symm.trans hpause
    | resumeTime j now =>
      obtain ⟨_, hamid, p, hperiod, _⟩ := clientStep_resumeTime hstep hh
      obtain ⟨_, time, period, hpc⟩ := hrecorded
      obtain rfl := h.callers k time period _ hpc
      refine ⟨?_, h.half.trans hamid⟩
      rw [← h.params_eq, hperiod]
      rfl
    | invoked time period => exact hrecorded.elim
    | _ => trivial

omit [DecidableEq κ] in
theorem oneTrigger_started {k₀ : κ} {previousTime : Time} :
    OneTrigger k₀ params initial (started params initial previousTime : State κ T E) where
  params_eq := rfl
  paused := rfl
  callers k time period pc hpc := by cases hpc
  toResume k hk := by cases hk
  half := rfl
  measures := {
    early := fun _ => rfl
    previous := fun _ base hb => (by cases hb)
    measured := fun hm => (by cases hm) }
  ordered := justified_nil

/-- All runs of a handler that has just been started, with `pause_thread_` and `previous_time_` as
they were. -/
def startedWith (κ T E : Type) [DecidableEq κ] [Inhabited T] (params : AsyncFunctionHandlerParams)
    (pauseThread : Bool) (previousTime : Time) :
    System (Thread κ) (Oracle κ T E) (State κ T E) where
  start s := s = started params pauseThread previousTime
  step := step

/-- Nobody sets the handler up again, and only `k₀` triggers it. -/
def RunningTriggeredBy (k₀ : κ) (s : State κ T E) (t : Thread κ) (o : Oracle κ T E) : Prop :=
  Calling running s t o ∧ TriggeredBy k₀ s t o

/-- **The measured periods chain up.**  In every run under `DETACHED` in which one client triggers,
whatever the others call and the clock shows: `pause_thread_` is as the history says, and the period
of every invocation but the first is the time since the one before if there was no pause in between,
and is counted from one period before the last resume if there was one. -/
theorem periods_chain {k₀ : κ} {pauseThread : Bool} {previousTime : Time}
    (hpolicy : params.schedulingPolicy = .detached)
    (h : Reachable (startedWith κ T E params pauseThread previousTime) (RunningTriggeredBy k₀) s) :
    s.pauseThread = pausedAfter pauseThread s.history ∧
      Justified (PeriodsChain params pauseThread) s.history := by
  have hstart : ∀ s, (startedWith κ T E params pauseThread previousTime).start s →
      (startedHandler κ T E .detached).start s := fun s hs => ⟨_, _, _, hpolicy, hs⟩
  have hall : Started .detached running s ∧ OneTrigger k₀ params pauseThread s := by
    refine h.invariant
      (I := fun s => Started .detached running s ∧ OneTrigger k₀ params pauseThread s) ?_ ?_
    · intro s hs
      have hr : Reachable (startedHandler κ T E .detached) (RunningTriggeredBy k₀) s :=
        .start (hstart s hs)
      obtain rfl : s = started params pauseThread previousTime := hs
      exact ⟨⟨started_at hr, ⟨hpolicy, trivial⟩, fun k call hcall => (by cases hcall)⟩,
        oneTrigger_started⟩
    · rintro s t o s' hr ⟨hfacts, hI⟩ hp hs
      obtain ⟨hfacts', hmove⟩ := hfacts.step (fun _ _ _ hp => hp.1) (fun _ => setsUp_of_running)
        (hr.of_start hstart rfl) hp hs
      cases hmove with
      | worker hclient heffect => exact ⟨hfacts', hI.workerEffect hfacts hclient heffect⟩
      | client k hstep hworker hno hcs =>
        exact ⟨hfacts', hI.clientStep hfacts hp.2 hstep hworker hno hcs⟩
  obtain ⟨_, hI⟩ := hall
  refine ⟨hI.paused, fun before e after hsplit => PeriodsChain.of_order ?_⟩
  intro before' e' after' hsplit'
  refine hI.ordered before' e' (after' ++ after) ?_
  rw [hsplit, ← List.singleton_append, ← List.append_assoc, hsplit', List.append_assoc,
    List.cons_append]

end Runs

instance [DecidableEq κ] (k₀ : κ) (s : State κ T E) : ∀ t o, Decidable (TriggeredBy k₀ s t o)
  | .worker, _ => inferInstanceAs (Decidable True)
  | .client k, o =>
      decidable_of_iff ((s.client k).call? = none → o.call.isTrigger = true → k = k₀)
        (imp_congr call?_eq_none Iff.rfl)

instance [DecidableEq κ] (k₀ : κ) (s : State κ T E) (t : Thread κ) (o : Oracle κ T E) :
    Decidable (RunningTriggeredBy k₀ s t o) :=
  inferInstanceAs (Decidable (_ ∧ _))

/-- One client pauses the handler after the first invocation, and the other one resumes it. -/
def pausedAndResumed : List (Thread Bool × Oracle Bool Nat Unit) :=
  List.flatten [
    List.replicate 20 (.worker, { callback := .ok 0, now := 5 }),
    List.replicate 6 (.client false, { call := .pause, callback := .ok 0 }),
    List.replicate 5 (.worker, { callback := .ok 0 }),
    List.replicate 12 (.client true, { call := .trigger 1 2, callback := .ok 0, now := 80 }),
    List.replicate 6 (.worker, { callback := .ok 0, now := 90 })]

theorem periods_chain_resumed :
    ∃ s : State Bool Nat Unit,
      Reachable (startedWith Bool Nat Unit
        { schedulingPolicy := .detached, clock := true, execRate := 100 } false 0)
        (RunningTriggeredBy true) s ∧
      .resumed true ∈ s.history ∧ .invoked 90 (90 - (80 - 10000000)) ∈ s.history ∧
      Justified (PeriodsChain { schedulingPolicy := .detached, clock := true, execRate := 100 } false)
        s.history := by
  obtain ⟨s, hs, hp⟩ := exists_reachable_of_exec (startedWith Bool Nat Unit
      { schedulingPolicy := .detached, clock := true, execRate := 100 } false 0)
    (RunningTriggeredBy true) pausedAndResumed
    (started { schedulingPolicy := .detached, clock := true, execRate := 100 } false 0)
    (fun s => .resumed true ∈ s.history ∧ .invoked 90 (90 - (80 - 10000000)) ∈ s.history) rfl
    (by decide)
  obtain ⟨hresumed, hinvoked⟩ : .resumed true ∈ s.history ∧
      .invoked 90 (90 - (80 - 10000000)) ∈ s.history := by simpa using hp
  exact ⟨s, hs, hresumed, hinvoked, (periods_chain rfl hs).2⟩

end AsyncFunctionHandler
