import RealtimeTools.AsyncHandler.Triggers
import RealtimeTools.Interleaving.Handover

/-!
# Every accepted trigger runs the callback once

With the `SYNCHRONIZED` policy the clients and the worker hand over one pair of arguments at a time:
`trigger_in_progress_` says whether a pair is pending, and a cycle ends by clearing it.  The handler
refines `Handover` as long as nobody stops or resets it.
-/

open Interleaving

namespace AsyncFunctionHandler

variable {κ T E : Type} {s s' : State κ T E} {k : κ} {o : Oracle κ T E}

/-! ## Cycles in the history -/

namespace Event

def accepted? : Event κ T E → Option (Time × Duration)
  | .accepted _ time period => some (time, period)
  | _ => none

def invoked? : Event κ T E → Option (Time × Duration)
  | .invoked time period => some (time, period)
  | _ => none

def endsCycle : Event κ T E → Bool
  | .cycleEnded => true
  | _ => false

/-- The event is neither an acceptance, nor an invocation, nor the end of a cycle. -/
structure Neutral (e : Event κ T E) : Prop where
  accepted : e.accepted? = none
  invoked : e.invoked? = none
  completed : e.endsCycle = false

end Event

/-- The arguments of the accepted triggers, in order. -/
def acceptedArgs (history : List (Event κ T E)) : List (Time × Duration) :=
  history.filterMap Event.accepted?

/-- The arguments of the invocations of `async_function_`, in order. -/
def invokedArgs (history : List (Event κ T E)) : List (Time × Duration) :=
  history.filterMap Event.invoked?

def completedCycles (history : List (Event κ T E)) : Nat := history.countP Event.endsCycle

section Concat

variable (history : List (Event κ T E)) (e : Event κ T E)

@[simp] theorem acceptedArgs_concat :
    acceptedArgs (history ++ [e]) = acceptedArgs history ++ e.accepted?.toList := by
  cases h : e.accepted? <;> simp [acceptedArgs, h]

@[simp] theorem invokedArgs_concat :
    invokedArgs (history ++ [e]) = invokedArgs history ++ e.invoked?.toList := by
  cases h : e.invoked? <;> simp [invokedArgs, h]

@[simp] theorem completedCycles_concat :
    completedCycles (history ++ [e]) = completedCycles history + e.endsCycle.toNat := by
  cases h : e.endsCycle <;> simp [completedCycles, h]

end Concat

/-- A step adds nothing to the history, or a neutral event. -/
def AddsNeutral (s s' : State κ T E) : Prop :=
  s'.history = s.history ∨ ∃ e : Event κ T E, e.Neutral ∧ s'.history = s.history ++ [e]

theorem AddsNeutral.counts (h : AddsNeutral s s') :
    acceptedArgs s'.history = acceptedArgs s.history ∧
      invokedArgs s'.history = invokedArgs s.history ∧
      completedCycles s'.history = completedCycles s.history := by
  rcases h with hh | ⟨e, he, hh⟩ <;> rw [hh]
  · exact ⟨rfl, rfl, rfl⟩
  · simp [he.accepted, he.invoked, he.completed]

theorem CallHistory.neutral (h : CallHistory k s s') : AddsNeutral s s' := by
  rcases h with hh | ⟨e, he, hh⟩
  · exact .inl hh
  · refine .inr ⟨e, ?_, hh⟩
    cases e <;> first | exact ⟨rfl, rfl, rfl⟩ | exact he.elim

/-! ## The hand-over -/

/-- The worker clears `trigger_in_progress_` without a cycle, because it has been stopped. -/
def WorkerPc.abandons : WorkerPc T E → Bool
  | .loop _ (.clear false) => true
  | _ => false

/-- The pending arguments are those of the members, or of the client that is about to store them. -/
def ArgumentsOf (s : State κ T E) (args : Time × Duration) : Prop :=
  (∃ k, s.client k = .trigger args.1 args.2 .storeTimes) ∨
    ((s.currentCallbackTime, s.currentCallbackPeriod) = args ∧
      ∀ k time period, s.client k ≠ .trigger time period .storeTimes)

/-- What the handler looks like as a hand-over of arguments. -/
structure Represents (s : State κ T E) (a : Handover (Time × Duration)) : Prop where
  accepted : acceptedArgs s.history = a.accepted
  invoked : invokedArgs s.history = if s.worker.hasInvoked then a.accepted else a.done
  completed : completedCycles s.history = a.done.length
  busy : s.triggerInProgress = a.pending.isSome
  arguments : ∀ args ∈ a.pending, ArgumentsOf s args

/-- Nobody has asked the worker to stop. -/
structure GoingOn (s : State κ T E) : Prop where
  stop : s.stopAsyncCallback = false
  worker : s.worker.abandons = false

theorem Represents.of_neutral {a : Handover (Time × Duration)} (h : Represents s a)
    (hh : AddsNeutral s s') (hworker : s'.worker.hasInvoked = s.worker.hasInvoked)
    (hbusy : s'.triggerInProgress = s.triggerInProgress)
    (hargs : ∀ args, ArgumentsOf s args → ArgumentsOf s' args) : Represents s' a := by
  obtain ⟨hacc, hinv, hcomp⟩ := hh.counts
  exact ⟨hacc.trans h.accepted, by rw [hinv, h.invoked, hworker], hcomp.trans h.completed,
    hbusy.trans h.busy, fun args hpending => hargs args (h.arguments args hpending)⟩

theorem QuietMove.abandons {pc pc' : WorkerPc T E} (h : QuietMove s pc pc')
    (hs : s.stopAsyncCallback = false) : pc'.abandons = false := by
  cases h with
  | stopping site hstop => cases hs.symm.trans hstop
  | firstTrue site _ | firstFalse site _ | stopTrue site _ | stopFalse site _ | running site _ =>
    cases site <;> rfl
  | _ => rfl

/-- Nobody else is storing arguments while the worker owns the mutex. -/
theorem arguments_of_owns {args : Time × Duration} (hat : ∀ t, At t s) (hown : Owns .worker s)
    (h : ArgumentsOf s args) : (s.currentCallbackTime, s.currentCallbackPeriod) = args := by
  rcases h with ⟨k, hpc⟩ | ⟨hargs, _⟩
  · have hk : ClientPcAt k s (s.client k) := hat (.client k)
    rw [hpc] at hk
    cases hown.symm.trans hk.1
  · exact hargs

section Steps

variable [DecidableEq κ] {a : Handover (Time × Duration)} {allowed : Call → Bool}

theorem WorkerEffect.simulates (h : WorkerEffect s s') (hfacts : Started .synchronized allowed s)
    (hclient : s'.client = s.client) (hgoing : GoingOn s) (ha : Represents s a) :
    ∃ a', (a' = a ∨ Handover.Step a a') ∧ Represents s' a' := by
  have hfollows := hfacts.steady.worker
  have hargs : s'.currentCallbackTime = s.currentCallbackTime →
      s'.currentCallbackPeriod = s.currentCallbackPeriod →
      ∀ args, ArgumentsOf s args → ArgumentsOf s' args := by
    intro ht hp args h
    simpa only [ArgumentsOf, hclient, ht, hp] using h
  have hkeep : AddsNeutral s s' → s'.worker.hasInvoked = s.worker.hasInvoked →
      s'.triggerInProgress = s.triggerInProgress →
      s'.currentCallbackTime = s.currentCallbackTime →
      s'.currentCallbackPeriod = s.currentCallbackPeriod →
      ∃ a', (a' = a ∨ Handover.Step a a') ∧ Represents s' a' :=
    fun hh hw hbusy ht hp => ⟨a, .inl rfl, ha.of_neutral hh hw hbusy (hargs ht hp)⟩
  cases h with
  | quiet hpc hm hh =>
    exact hkeep (.inl hh) hpc.hasInvoked (by rw [hm]) (by rw [hm]) (by rw [hm])
  | fault hpc hm hh =>
    exact hkeep (.inl hh) (by rw [hpc]) (by rw [hm]) (by rw [hm]) (by rw [hm])
  | lock site hpc hpc' _ hm hh | wake site hpc hpc' hm hh =>
    refine hkeep (.inl hh) ?_ (by rw [hm]) (by rw [hm]) (by rw [hm])
    rw [hpc, hpc']
    cases site <;> rfl
  | block site hpc hpc' _ _ hm hh =>
    refine hkeep (.inl hh) ?_ (by rw [hm]) (by rw [hm]) (by rw [hm])
    rw [hpc, hpc']
    cases site <;> rfl
  | storeReturn site _ hpc hpc' _ _ hm hh | storeException site _ hpc hpc' _ _ hm hh =>
    refine hkeep (.inl hh) ?_ (by rw [hm]) (by rw [hm]) (by rw [hm])
    rw [hpc, hpc']
    cases site <;> rfl
  | prologueUnlock hpc hpc' _ hm hh | readPrevious _ hpc hpc' hm hh
  | unlock _ hpc hpc' _ _ hm hh | notifyAll _ hpc hpc' hm hh =>
    exact hkeep (.inl hh) (by rw [hpc, hpc']; rfl) (by rw [hm]) (by rw [hm]) (by rw [hm])
  | callbackReturned site _ hpc hpc' _ _ hm hh | callbackThrew site _ hpc hpc' _ _ hm hh =>
    exact hkeep (.inr ⟨_, ⟨rfl, rfl, rfl⟩, hh⟩) (by rw [hpc, hpc']; rfl) (by rw [hm]) (by rw [hm])
      (by rw [hm])
  | measure _ hpc _ _ _ _ =>
    rw [hpc] at hfollows
    exact absurd rfl hfollows
  | clearStopped site hpc _ _ _ _ =>
    have hnot := hgoing.worker
    rw [hpc] at hnot
    cases hnot
  | invoke site hpc hpc' hown hc hm hh =>
    rw [hpc] at hfollows
    obtain ⟨args, hpending⟩ : ∃ args, a.pending = some args :=
      Option.isSome_iff_exists.mp (ha.busy ▸ hc (site_of_follows hfollows))
    have hcurrent := arguments_of_owns hfacts.at_ hown (ha.arguments args hpending)
    refine ⟨a, .inl rfl, ?_, ?_, ?_, by rw [hm]; exact ha.busy, fun args hp => ?_⟩
    · rw [hh, ← ha.accepted]
      simp [Event.accepted?]
    · -- The worker owns the mutex, so the arguments it reads are the pending ones.
      have hinvoked : invokedArgs s'.history = invokedArgs s.history ++ [args] := by
        rw [hh, ← hcurrent]
        simp [Event.invoked?]
      rw [hinvoked, ha.invoked, hpc, hpc']
      exact (Handover.accepted_eq_concat_iff.mpr hpending).symm
    · rw [hh, ← ha.completed]
      simp [Event.endsCycle]
    · exact hargs (by rw [hm]) (by rw [hm]) args (ha.arguments args hp)
  | clear site hpc hpc' hown hc hm hh =>
    rw [hpc] at hfollows
    obtain ⟨args, hpending⟩ : ∃ args, a.pending = some args :=
      Option.isSome_iff_exists.mp (ha.busy ▸ hc (site_of_follows hfollows))
    -- The pending pair becomes the last one done.
    have haccepted := Handover.accepted_eq_concat_iff.mpr hpending
    have hempty : (⟨a.done ++ [args], none⟩ : Handover (Time × Duration)).accepted =
        a.done ++ [args] := Handover.accepted_eq_done_iff.mpr rfl
    refine ⟨⟨a.done ++ [args], none⟩, .inr ?_, ?_, ?_, ?_, by rw [hm]; rfl, fun _ hp => nomatch hp⟩
    · obtain ⟨done, pending⟩ := a
      cases hpending
      exact .finish done args
    · rw [hempty, ← haccepted, ← ha.accepted, hh]
      simp [Event.accepted?]
    · have hinvoked : invokedArgs s'.history = invokedArgs s.history := by
        rw [hh]
        simp [Event.invoked?]
      rw [hinvoked, ha.invoked, hpc, hpc']
      exact haccepted
    · rw [hh, List.length_append, List.length_singleton, ← ha.completed]
      simp [Event.endsCycle]

variable [Inhabited T]

/-- Elsewhere than at its two stores a trigger does not touch the hand-over. -/
theorem ClientEffect.cycle_kept (h : ClientEffect k s s')
    (hno : ∀ call, s.client k ≠ .init call) (hreset : ∀ starting pc, s.client k ≠ .reset starting pc)
    (hstore : ∀ time period, s.client k ≠ .trigger time period .storeTrigger)
    (htimes : ∀ time period, s.client k ≠ .trigger time period .storeTimes) :
    AddsNeutral s s' ∧ s'.triggerInProgress = s.triggerInProgress ∧
      s'.currentCallbackTime = s.currentCallbackTime ∧
      s'.currentCallbackPeriod = s.currentCallbackPeriod := by
  cases h with
  | init call hpc _ _ => exact absurd hpc (hno call)
  | storeTrigger time period _ _ hpc _ _ _ => exact absurd hpc (hstore time period)
  | storeTimes time period _ hpc _ _ => exact absurd hpc (htimes time period)
  | resetTrigger starting _ hpc _ _ => exact absurd hpc (hreset starting _)
  | resetTimes _ hpc _ _ =>
    obtain ⟨starting, hpc⟩ := hpc
    exact absurd hpc (hreset starting _)
  | quiet hm hh | unlock _ hm hh | join _ hm hh | spawn hm hh =>
    rw [hm]
    exact ⟨hh.neutral, rfl, rfl, rfl⟩
  | storeResume _ _ hm hh | storePrevious _ _ _ hm hh | storePause hm hh | resetException _ hm hh =>
    rw [hm]
    exact ⟨.inr ⟨_, ⟨rfl, rfl, rfl⟩, hh⟩, rfl, rfl, rfl⟩
  | _ =>
    rename_i hm hh
    rw [hm]
    exact ⟨.inl hh, rfl, rfl, rfl⟩

/-- An accepted trigger is a pair handed over. -/
theorem Represents.storeTrigger {time : Time} {period : Duration} (ha : Represents s a)
    (hat : ∀ t, At t s) (hworker : s'.worker = s.worker)
    (hpc : s.client k = .trigger time period .storeTrigger) (h : clientStep s k o = some s') :
    ∃ a', Handover.Step a a' ∧ Represents s' a' := by
  have hk : ClientPcAt k s (s.client k) := hat (.client k)
  rw [hpc] at hk
  obtain ⟨hown, hfree⟩ : Owns (.client k) s ∧ s.triggerInProgress = false := hk
  have hnot : s.worker.hasInvoked = false := by
    by_contra hinvoked
    cases hown.symm.trans (owns_of_hasInvoked (hat .worker) (by simpa using hinvoked))
  have hpending : a.pending = none := by simpa [hfree] using ha.busy
  obtain ⟨done, pending⟩ := a
  cases hpending
  simp only [clientStep, hpc] at h
  obtain rfl := Option.some.inj h
  refine ⟨⟨done, some (time, period)⟩, .accept done (time, period), ?_, ?_, ?_, rfl, ?_⟩
  · simpa [State.record, State.goto, Event.accepted?, Handover.accepted] using ha.accepted
  · have hinvoked := ha.invoked
    rw [hnot] at hinvoked
    simpa [State.record, State.goto, Event.invoked?, hnot] using hinvoked
  · simpa [State.record, State.goto, Event.endsCycle] using ha.completed
  · intro args hargs
    obtain rfl := Option.some.inj hargs
    exact .inl ⟨k, by simp⟩

/-- The client that has accepted a trigger is the one that stores its arguments. -/
theorem Represents.storeTimes {time : Time} {period : Duration} (ha : Represents s a)
    (hat : ∀ t, At t s) (hpc : s.client k = .trigger time period .storeTimes)
    (h : clientStep s k o = some s') : Represents s' a := by
  have hk : ClientPcAt k s (s.client k) := hat (.client k)
  rw [hpc] at hk
  have hown : Owns (.client k) s := hk.1
  have honly : ∀ {j t p}, s.client j = .trigger t p .storeTimes → j = k := by
    intro j t p hj
    have hat' : ClientPcAt j s (s.client j) := hat (.client j)
    rw [hj] at hat'
    simpa using Option.some.inj (hat'.1.symm.trans hown)
  simp only [clientStep, hpc] at h
  obtain rfl := Option.some.inj h
  refine ⟨ha.accepted, ha.invoked, ha.completed, ha.busy, fun args hargs => ?_⟩
  rcases ha.arguments args hargs with ⟨j, hj⟩ | ⟨_, hnobody⟩
  · obtain rfl := honly hj
    have hargs : time = args.1 ∧ period = args.2 := by simpa [hpc] using hj
    refine .inr ⟨Prod.ext hargs.1 hargs.2, fun i t p hi => ?_⟩
    by_cases hij : i = j
    · subst hij
      simp at hi
    · simp only [State.goto, Function.update_of_ne hij] at hi
      exact hij (honly hi)
  · exact absurd hpc (hnobody k time period)

theorem ClientStep.simulates (hs : ClientStep k s s') (hfacts : Started .synchronized allowed s)
    (hallowed : ∀ starting pc, s.client k ≠ .reset starting pc) (hworker : s'.worker = s.worker)
    (hno : ∀ call, s.client k ≠ .init call) (hrecorded : CallRecorded k s) (ha : Represents s a)
    (h : clientStep s k o = some s') : ∃ a', (a' = a ∨ Handover.Step a a') ∧ Represents s' a' := by
  -- The two stores of an accepted trigger; every other step of a client is neutral.
  by_cases hstore : ∃ time period, s.client k = .trigger time period .storeTrigger
  · obtain ⟨time, period, hpc⟩ := hstore
    obtain ⟨a', hstep, ha'⟩ := ha.storeTrigger hfacts.at_ hworker hpc h
    exact ⟨a', .inr hstep, ha'⟩
  by_cases htimes : ∃ time period, s.client k = .trigger time period .storeTimes
  · obtain ⟨time, period, hpc⟩ := htimes
    exact ⟨a, .inl rfl, ha.storeTimes hfacts.at_ hpc h⟩
  push Not at hstore htimes
  obtain ⟨hh, hbusy, ht, hp⟩ := hs.effect.cycle_kept hno hallowed hstore htimes
  refine ⟨a, .inl rfl, ha.of_neutral hh (by rw [hworker]) hbusy ?_⟩
  rintro args (⟨j, hj⟩ | ⟨hargs, hnobody⟩)
  -- The client that is storing its arguments is another one, and stays where it is.
  · have hjk : j ≠ k := by
      rintro rfl
      exact htimes _ _ hj
    exact .inl ⟨j, (hs.others hjk).trans hj⟩
  · refine .inr ⟨by rw [ht, hp]; exact hargs, fun j time period hj => ?_⟩
    by_cases hjk : j = k
    · subst hjk
      rcases clientStep_inTrigger hfacts.steady.params hrecorded.sync hj h with
        ⟨hpc, _⟩ | ⟨pc, hpc, hmove⟩
      · cases hpc
      · cases hmove with
        | store _ _ => exact hstore time period hpc
        | goOn pc' hpc' _ hne _ _ =>
          cases hj.symm.trans hpc'
          exact hne rfl
        | finish _ _ hidle _ => cases hj.symm.trans hidle
    · exact hnobody j time period ((hs.others hjk).symm.trans hj)

/-! ## Runs without stops and resets -/

/-- The calls of a run in which nobody stops or resets the handler. -/
def triggering : Call → Bool
  | .trigger _ _ | .wait | .pause => true
  | _ => false

omit [DecidableEq κ] [Inhabited T] in
theorem setsUp_of_triggering {call : Call} (h : triggering call = true) : call.setsUp = false := by
  cases call <;> first | rfl | cases h

omit [Inhabited T] in
theorem WorkerEffect.stop_kept (h : WorkerEffect s s') :
    s'.stopAsyncCallback = s.stopAsyncCallback := by
  cases h <;> rename_i hm _ <;> rw [hm]

omit [Inhabited T] in
theorem GoingOn.workerEffect (h : GoingOn s) (hs : WorkerEffect s s') : GoingOn s' where
  stop := hs.stop_kept.trans h.stop
  worker := by
    cases hs with
    | quiet hpc _ _ => exact hpc.abandons h.stop
    | fault hpc _ _ => exact hpc ▸ h.worker
    | lock site _ hpc' _ _ _ | wake site _ hpc' _ _ => rw [hpc']; cases site <;> rfl
    | block site _ hpc' _ _ _ _ => rw [hpc']; cases site <;> rfl
    | storeReturn site _ _ hpc' _ _ _ _ | storeException site _ _ hpc' _ _ _ _ =>
      rw [hpc']
      cases site <;> rfl
    | prologueUnlock _ hpc' _ _ _ | readPrevious _ _ hpc' _ _ | measure _ _ hpc' _ _ _
    | invoke _ _ hpc' _ _ _ _ | callbackReturned _ _ _ hpc' _ _ _ _
    | callbackThrew _ _ _ hpc' _ _ _ _ | clear _ _ hpc' _ _ _ _ | clearStopped _ _ hpc' _ _ _
    | unlock _ _ hpc' _ _ _ _ | notifyAll _ _ hpc' _ _ => rw [hpc']; rfl

/-- A wait that returns true has seen the end of every cycle accepted before it was called. -/
def CoveredByCycles (before : List (Event κ T E)) (e : Event κ T E) : Prop :=
  ∀ k, e = .returned k (.bool true) → ∃ earlier call since,
    LastCall k before earlier call since ∧ (call = .wait ∨ call = .pause) ∧
      (acceptedArgs earlier).length ≤ completedCycles before

theorem CallRecorded.covered {e : Event κ T E} (h : CallRecorded k s) (hat : At (.client k) s)
    (ha : Represents s a) (hstep : clientStep s k o = some s')
    (hh : s'.history = s.history ++ [e]) : CoveredByCycles s.history e := by
  rintro j rfl
  obtain ⟨rfl, hret, _⟩ := clientStep_returned hstep hh
  have hsync := h.sync
  have hpcat : ClientPcAt j s (s.client j) := hat
  generalize hpc : s.client j = pc at hret
  generalize hresult : (Result.bool true : Result T E) = result at hret
  rw [hpc] at hsync hpcat
  cases hret with
  | paused | pauseLoaded => cases hsync
  | waited pausing =>
    obtain ⟨earlier, since, hlast, _⟩ :=
      h.call (if pausing then .pause else .wait) (by rw [hpc]; rfl)
    refine ⟨earlier, _, since, hlast, ?_, ?_⟩
    · cases pausing
      · exact .inl rfl
      · exact .inr rfl
    · -- Nothing is pending when the wait returns, so all that was accepted is completed.
      have hpending : a.pending = none := by simpa [hpcat.2] using ha.busy
      rw [ha.completed, ← Handover.accepted_eq_done_iff.mpr hpending, ← ha.accepted, hlast.split]
      simp [acceptedArgs]
  | _ => cases hresult

/-- What holds of a handler that nobody stops or resets. -/
structure Cycles (s : State κ T E) : Prop where
  going : GoingOn s
  recorded : ∀ k, CallRecorded k s
  handover : ∃ a, Represents s a
  calls : Justified AcceptedInCall s.history
  waits : Justified CoveredByCycles s.history

omit [Inhabited T] in
theorem Cycles.workerEffect (h : Cycles s) (hfacts : Started .synchronized triggering s)
    (hclient : s'.client = s.client) (hs : WorkerEffect s s') : Cycles s' where
  going := h.going.workerEffect hs
  recorded := .afterWorker h.recorded hclient hs
  handover := by
    obtain ⟨a, ha⟩ := h.handover
    obtain ⟨a', _, ha'⟩ := hs.simulates hfacts hclient h.going ha
    exact ⟨a', ha'⟩
  calls := by
    rcases hs.history with hh | ⟨e, he, hh⟩
    · exact hh ▸ h.calls
    · refine hh ▸ justified_concat.mpr ⟨h.calls, ?_⟩
      cases e <;> trivial
  waits := by
    rcases hs.history with hh | ⟨e, he, hh⟩
    · exact hh ▸ h.waits
    · refine hh ▸ justified_concat.mpr ⟨h.waits, ?_⟩
      rintro k rfl
      cases he

theorem Cycles.clientStep (h : Cycles s) (hfacts : Started .synchronized triggering s)
    (hfacts' : Started .synchronized triggering s') (hs : ClientStep k s s')
    (hworker : s'.worker = s.worker) (hno : NotSettingUp k s)
    (hstep : clientStep s k o = some s') : Cycles s' where
  going := by
    refine ⟨?_, hworker ▸ h.going.worker⟩
    by_contra hstop
    rcases hs.effect.stopping (by simpa using hstop) with hstop | hpc
    · cases h.going.stop.symm.trans hstop
    · cases hfacts'.calls k .stop (by rw [hpc]; rfl)
  recorded := .afterClient h.recorded hfacts.steady.params hs hstep
  handover := by
    obtain ⟨a, ha⟩ := h.handover
    have hreset : ∀ starting pc, s.client k ≠ .reset starting pc := by
      intro starting pc hpc
      have hcall := hfacts.calls k _ (by rw [hpc]; rfl)
      cases starting <;> cases hcall
    obtain ⟨a', _, ha'⟩ := hs.simulates hfacts hreset hworker hno.not_init (h.recorded k) ha hstep
    exact ⟨a', ha'⟩
  calls := by
    refine h.calls.step hs.effect.grows fun e hh => ?_
    exact (h.recorded k).acceptedInCall hs.effect hstep hh
  waits := by
    obtain ⟨a, ha⟩ := h.handover
    refine h.waits.step hs.effect.grows fun e hh => ?_
    exact (h.recorded k).covered (hfacts.at_ (.client k)) ha hstep hh

theorem reachable_cycles
    (h : Reachable (startedHandler κ T E .synchronized) (Calling triggering) s) : Cycles s := by
  refine (started_invariant (I := Cycles) (fun _ _ _ hp => hp) (fun _ => setsUp_of_triggering)
    ?_ ?_ ?_ h).2
  · intro params pauseThread previousTime _
    exact ⟨⟨rfl, rfl⟩, fun k => ⟨rfl, fun call hcall => nomatch hcall⟩,
      ⟨.empty, rfl, rfl, rfl, rfl, fun args hargs => nomatch hargs⟩, justified_nil, justified_nil⟩
  · exact fun s o s' hfacts _ hcycles _ hclient hs => hcycles.workerEffect hfacts hclient hs
  · exact fun s k o s' hfacts hfacts' hcycles _ hs hworker hno hstep =>
      hcycles.clientStep hfacts hfacts' hs hworker hno hstep

/-- **Every accepted trigger runs the callback once.**  The accepted triggers are the completed cycles
and the one in progress; the invocations get the arguments of the accepted triggers, in order; exactly
the trigger calls that were accepted return true; and a wait that returns true has seen the end of
every cycle accepted before it was called. -/
theorem accepted_trigger_runs_once
    (h : Reachable (startedHandler κ T E .synchronized) (Calling triggering) s) :
    (acceptedArgs s.history).length =
        completedCycles s.history + (if s.triggerInProgress then 1 else 0) ∧
      invokedArgs s.history <+: acceptedArgs s.history ∧
      completedCycles s.history ≤ (invokedArgs s.history).length ∧
      Justified AcceptedInCall s.history ∧ Justified CoveredByCycles s.history := by
  have hcycles := reachable_cycles h
  obtain ⟨a, ha⟩ := hcycles.handover
  refine ⟨?_, ?_, ?_, hcycles.calls, hcycles.waits⟩
  · rw [ha.accepted, ha.completed, ha.busy]
    exact a.accepted_length
  · rw [ha.invoked, ha.accepted]
    split
    · exact List.prefix_refl _
    · exact a.done_prefix_accepted
  · rw [ha.invoked, ha.completed]
    split
    · exact a.done_prefix_accepted.length_le
    · exact le_rfl

end Steps

/-- A client triggers two cycles; the worker has run the first. -/
def twoTriggers : List (Thread Unit × Oracle Unit Nat Unit) :=
  List.replicate 13 (.client (), { call := .trigger 1 2, callback := .ok 0 }) ++
    List.replicate 11 (.worker, { callback := .ok 0 }) ++
    List.replicate 13 (.client (), { call := .trigger 3 4, callback := .ok 0 })

theorem accepted_trigger_runs_once_twoTriggers :
    ∃ s : State Unit Nat Unit,
      Reachable (startedHandler Unit Nat Unit .synchronized) (Calling triggering) s ∧
        acceptedArgs s.history = [(1, 2), (3, 4)] ∧ s.triggerInProgress = true ∧
        completedCycles s.history = 1 ∧ invokedArgs s.history <+: [(1, 2), (3, 4)] := by
  obtain ⟨s, hs, hp⟩ := exists_reachable_of_exec
    (startedHandler Unit Nat Unit .synchronized) (Calling triggering) twoTriggers
    (started {} true 0)
    (fun s => acceptedArgs s.history = [(1, 2), (3, 4)] ∧ s.triggerInProgress = true)
    ⟨_, _, _, rfl, rfl⟩ (by decide)
  obtain ⟨hacc, hbusy⟩ : acceptedArgs s.history = [(1, 2), (3, 4)] ∧ s.triggerInProgress = true := by
    simpa using hp
  obtain ⟨hcount, hinvoked, _⟩ := accepted_trigger_runs_once hs
  rw [hacc] at hinvoked
  rw [hacc, hbusy] at hcount
  exact ⟨s, hs, hacc, hbusy, (Nat.succ.inj hcount).symm, hinvoked⟩

end AsyncFunctionHandler
