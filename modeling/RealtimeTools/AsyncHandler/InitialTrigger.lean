import RealtimeTools.AsyncHandler.Pausing

/-!
# The initial trigger

`wait_until_initial_trigger` starts a handler paused.  Under `SYNCHRONIZED` only a trigger whose
predicate held starts a cycle.  Under `DETACHED` a trigger resumes the worker, and that branch of
`trigger_async_callback` does not ask the predicate.
-/

open Interleaving

namespace AsyncFunctionHandler

variable {κ T E : Type} {s s' : State κ T E} {k : κ} {o : Oracle κ T E}

/-- `trigger_predicate_` has returned true. -/
def Event.predicateTrue : Event κ T E → Bool
  | .predicate _ result => result
  | _ => false

/-- Some trigger has evaluated the predicate to true. -/
def predicateHeld (history : List (Event κ T E)) : Bool := history.any Event.predicateTrue

theorem predicateHeld_iff {history : List (Event κ T E)} :
    predicateHeld history = true ↔ ∃ k, .predicate k true ∈ history := by
  unfold predicateHeld
  rw [List.any_eq_true]
  constructor
  · rintro ⟨e, hmem, he⟩
    cases e with
    | predicate k result =>
      obtain rfl : result = true := he
      exact ⟨k, hmem⟩
    | _ => cases he
  · exact fun ⟨k, hmem⟩ => ⟨_, hmem, rfl⟩

theorem predicateHeld_concat {history : List (Event κ T E)} {e : Event κ T E} :
    predicateHeld (history ++ [e]) = (predicateHeld history || e.predicateTrue) := by
  simp [predicateHeld]

/-- The callback is not invoked before the predicate has held. -/
def AfterPredicate (before : List (Event κ T E)) (e : Event κ T E) : Prop :=
  ∀ time period, e = .invoked time period → ∃ k, .predicate k true ∈ before

/-- The store by which a trigger ends a pause. -/
def ClientPc.resuming : ClientPc T → Bool
  | .trigger _ _ .storeResume => true
  | _ => false

/-- The calls of a handler that is configured. -/
def configured : Call → Bool
  | .init _ => false
  | _ => true

/-- A trigger ends a pause only after the predicate has held. -/
def ResumesLate (s : State κ T E) : Thread κ → Prop
  | .worker => True
  | .client k => (s.client k).resuming = true → predicateHeld s.history = true

instance (s : State κ T E) : ∀ t, Decidable (ResumesLate s t)
  | .worker => inferInstanceAs (Decidable True)
  | .client _ => inferInstanceAs (Decidable (_ → _))

/-- No call of `init`, and no early end of a pause. -/
def ResumingAfterPredicate (s : State κ T E) (t : Thread κ) (o : Oracle κ T E) : Prop :=
  Calling configured s t o ∧ ResumesLate s t

instance (s : State κ T E) (t : Thread κ) (o : Oracle κ T E) :
    Decidable (ResumingAfterPredicate s t o) :=
  inferInstanceAs (Decidable (_ ∧ _))

/-- What holds as long as the predicate has not held. -/
structure Waiting (s : State κ T E) : Prop where
  paused : s.pauseThread = true
  idle : s.triggerInProgress = false
  accepting : ∀ k, (s.client k).accepting = false
  worker : ¬ AtWork s

structure Gated (s : State κ T E) : Prop where
  calls : InCall configured s
  waiting : predicateHeld s.history = false → Waiting s
  invoked : Justified AfterPredicate s.history

theorem Waiting.resting (h : Waiting s) (site : Loop) : Resting site s := by
  cases site with
  | synchronized => exact h.idle
  | detached => exact h.paused

section Steps

variable [DecidableEq κ]

theorem Waiting.workerStep (h : Waiting s) (hs : WorkerStep s s') (he : WorkerEffect s s') :
    Waiting s' where
  paused := he.pauseThread.trans h.paused
  idle := by
    rcases hs.trigger with ht | ⟨_, ht⟩
    · exact ht.trans h.idle
    · exact ht
  accepting k := by
    rw [hs.client]
    exact h.accepting k
  worker := he.not_atWork (fun site _ => h.resting site.kind) h.worker

variable [Inhabited T]

/-- A trigger is on its way to be accepted because its predicate has just held. -/
theorem clientStep_accepting (h : clientStep s k o = some s')
    (hpc' : (s'.client k).accepting = true) (hpc : (s.client k).accepting = false) :
    s'.history = s.history ++ [.predicate k true] := by
  obtain ⟨time, period, hat⟩ : ∃ time period, s'.client k = .trigger time period .storeTrigger := by
    unfold ClientPc.accepting at hpc'
    split at hpc'
    · rename_i time period hat
      exact ⟨time, period, hat⟩
    · cases hpc'
  rcases clientStep_to_trigger h hat with ⟨_, hpc, _⟩ | ⟨pc, hfrom, hstep⟩
  · cases hpc
  · cases hstep with
    | predicate result =>
      cases result with
      | true => rfl
      | false => simp at hat
    | read hread =>
      rw [State.client_goto] at hat
      cases hat
      cases hread
    | finish => simp [State.returnWith] at hat
    | fault f =>
      rw [show s.client k = _ from hat] at hpc
      cases hpc
    | _ => simp at hat

theorem Waiting.clientStep (h : Waiting s) (hat : At .worker s) (hs : ClientStep k s s')
    (hno : ∀ call, s.client k ≠ .init call)
    (hresume : (s.client k).resuming = true → predicateHeld s.history = true)
    (hstep : clientStep s k o = some s') (hnot : predicateHeld s'.history = false) :
    Waiting s' where
  paused := by
    rcases hs.effect.pauseThread hno h.paused with hp | hh
    · exact hp
    · obtain ⟨_, time, period, hpc⟩ := clientStep_records hstep hh
      have hheld := hresume (by rw [hpc]; rfl)
      rw [hh, predicateHeld_concat, hheld] at hnot
      cases hnot
  idle := hs.effect.not_accepted hno h.idle (h.accepting k)
  accepting j := by
    by_cases hjk : j = k
    · subst hjk
      by_contra hpc'
      have hh := clientStep_accepting hstep (by simpa using hpc') (h.accepting j)
      rw [hh, predicateHeld_concat] at hnot
      simp [Event.predicateTrue] at hnot
    · rw [hs.others hjk]
      exact h.accepting j
  worker := by
    rcases hs.worker with hw | ⟨_, hw, _⟩
    · exact hs.effect.not_atWork hat hat.2 hw h.worker
    · unfold AtWork
      rw [hw]
      exact Bool.false_ne_true

omit [DecidableEq κ] [Inhabited T] in
theorem predicateHeld_of_step (hh : s'.history = s.history ∨ ∃ e, s'.history = s.history ++ [e])
    (h : predicateHeld s'.history = false) : predicateHeld s.history = false := by
  rcases hh with hh | ⟨e, hh⟩
  · rwa [hh] at h
  · rw [hh, predicateHeld_concat, Bool.or_eq_false_iff] at h
    exact h.1

theorem Gated.step {t : Thread κ} (h : Gated s) (hat : ∀ u, At u s)
    (hp : ResumingAfterPredicate s t o) (hs : step t o s = some s') : Gated s' := by
  have hsound := (step_sound hat hs).guarantee
  refine ⟨h.calls.step hp.1 hat hs, fun hnot => ?_, ?_⟩
  · cases t with
    | worker =>
      have he := workerStep_effect (workerStep_of_step hs) (hat .worker)
      have hwaiting := h.waiting (predicateHeld_of_step he.grows hnot)
      exact hwaiting.workerStep hsound he
    | client k =>
      have hcs : ClientStep k s s' := hsound
      have hwaiting := h.waiting
        (predicateHeld_of_step hcs.effect.grows hnot)
      have hno : ∀ call, s.client k ≠ .init call := by
        intro call hpc
        cases h.calls k (.init call) (by rw [hpc]; rfl)
      exact hwaiting.clientStep (hat .worker) hcs hno hp.2 (clientStep_of_step hs) hnot
  · cases t with
    | worker =>
      have he := workerStep_effect (workerStep_of_step hs) (hat .worker)
      refine h.invoked.step he.grows ?_
      rintro e hh time period rfl
      -- The worker is at work, so the time of waiting is over.
      have hheld : predicateHeld s.history = true := by
        by_contra hnot
        exact (h.waiting (by simpa using hnot)).worker (he.atWork_of_invoked hh)
      exact predicateHeld_iff.mp hheld
    | client k =>
      have hcs : ClientStep k s s' := hsound
      refine h.invoked.step hcs.effect.grows ?_
      rintro e hh time period rfl
      rcases hcs.effect.history with hh' | ⟨e, he, hh'⟩
      · simp [hh'] at hh
      · obtain rfl : e = .invoked time period := by simpa [hh'] using hh
        cases he

/-! ## Runs after an initialisation -/

/-- All runs that go on after a first call `init(callback, params)`, with valid parameters that ask to
wait for the initial trigger. -/
def initializedHandler (κ T E : Type) [DecidableEq κ] [Inhabited T] :
    System (Thread κ) (Oracle κ T E) (State κ T E) where
  start s := ∃ k o params s₁, params.validate = .valid ∧ params.waitUntilInitialTrigger = true ∧
    o.call = .init (.params true params) ∧ step (.client k) o fresh = some s₁ ∧
    step (.client k) o s₁ = some s
  step := step

omit [DecidableEq κ] [Inhabited T] in
theorem initParams_of_valid {params : AsyncFunctionHandlerParams} {m : Members κ T E}
    (hvalid : params.validate = .valid) (hj : m.joinable = false) :
    initParams true params m = .ok { m with
      asyncFunction := true
      threadPriority := params.threadPriority
      triggerPredicate := true
      params := params
      pauseThread := params.waitUntilInitialTrigger } := by
  have hpredicate : params.triggerPredicate = true :=
    (AsyncFunctionHandlerParams.validate_eq_valid_iff.mp hvalid).2.2.2.1
  simp [initParams, initPredicate, init, hvalid, hpredicate, hj, bind, Except.bind, pure,
    Except.pure]

/-- What `init` has left behind. -/
structure Initialized (s : State κ T E) : Prop where
  client : ∀ k, s.client k = .idle
  worker : s.worker = .finished
  paused : s.pauseThread = true
  trigger : s.triggerInProgress = false
  history : ∃ k call, s.history = [.called k call, .returned k .unit]

theorem initialized_of_start (h : (initializedHandler κ T E).start s) : Initialized s := by
  obtain ⟨k, o, params, s₁, hvalid, hwait, hcall, h₁, h₂⟩ := h
  have h₁ : some ((fresh.goto k o.call.entry).record (.called k o.call)) = some s₁ :=
    clientStep_of_step h₁
  obtain rfl := Option.some.inj h₁
  have hpc : ((fresh.goto k o.call.entry).record (.called k o.call) : State κ T E).client k =
      .init (.params true params) := by
    rw [State.client_record, State.client_goto, hcall]
    rfl
  have h₂ := clientStep_of_step h₂
  simp only [clientStep, hpc, initStep, InitCall.apply] at h₂
  rw [initParams_of_valid hvalid rfl] at h₂
  obtain rfl := Option.some.inj h₂
  refine ⟨fun j => ?_, rfl, hwait, rfl, k, o.call, rfl⟩
  by_cases hjk : j = k
  · subst hjk
    exact State.client_goto _ _ _
  · show Function.update (Function.update _ k _) k _ j = _
    rw [Function.update_of_ne hjk, Function.update_of_ne hjk]
    rfl

theorem reachable_gated
    (h : Reachable (initializedHandler κ T E) ResumingAfterPredicate s) : Gated s := by
  refine h.invariant (I := Gated) ?_ ?_
  · intro s hs
    obtain ⟨hclient, hworker, hpaused, htrigger, k, call, hh⟩ := initialized_of_start hs
    refine ⟨fun j call hcall => ?_, fun _ => ⟨hpaused, htrigger, fun j => ?_, ?_⟩, ?_⟩
    · rw [hclient j] at hcall
      cases hcall
    · rw [hclient j]
      rfl
    · unfold AtWork
      rw [hworker]
      exact Bool.false_ne_true
    · rintro before e after hsplit time period rfl
      have hmem : .invoked time period ∈ s.history := by simp [hsplit]
      rw [hh] at hmem
      simp at hmem
  · intro s t o s' hr hgated hp hs
    refine hgated.step (fun u => reachable_at_of_idle rfl (fun s hs => ?_) hr u) hp hs
    exact ⟨(initialized_of_start hs).client, .inl (initialized_of_start hs).worker⟩

/-- **Waiting for the initial trigger.**  If no trigger ends a pause before the predicate has held,
the callback is not invoked before the predicate has held, under either policy. -/
theorem invoked_after_predicate
    (h : Reachable (initializedHandler κ T E) ResumingAfterPredicate s) :
    Justified AfterPredicate s.history :=
  (reachable_gated h).invoked

/-- A schedule after `init` whose last state passes a test. -/
theorem exists_reachable_initialized (permit : State κ T E → Thread κ → Oracle κ T E → Prop)
    [∀ s t o, Decidable (permit s t o)] (run : List (Thread κ × Oracle κ T E))
    (p : State κ T E → Bool) {params : AsyncFunctionHandlerParams} (hvalid : params.validate = .valid)
    (hwait : params.waitUntilInitialTrigger = true) (hcall : o.call = .init (.params true params))
    (he : (((step (.client k) o fresh).bind (step (.client k) o)).bind
      ((initializedHandler κ T E).exec permit run)).any p = true) :
    ∃ s, Reachable (initializedHandler κ T E) permit s ∧ p s = true := by
  rw [Option.any_eq_true] at he
  obtain ⟨s, hs, hp⟩ := he
  rw [Option.bind_eq_some_iff] at hs
  obtain ⟨s₀, hs₀, hs⟩ := hs
  rw [Option.bind_eq_some_iff] at hs₀
  obtain ⟨s₁, h₁, h₂⟩ := hs₀
  have hstart : (initializedHandler κ T E).start s₀ :=
    ⟨k, o, params, s₁, hvalid, hwait, hcall, h₁, h₂⟩
  exact ⟨s, (Reachable.start hstart).exec hs, hp⟩

end Steps

/-- `init` with the given parameters. -/
def initWith (params : AsyncFunctionHandlerParams) : Oracle Unit Nat Unit :=
  { call := .init (.params true params), callback := .ok 0 }

/-- The handler is started and triggered, and the worker gets to work. -/
def startAndTrigger (trigger worker : ℕ) : List (Thread Unit × Oracle Unit Nat Unit) :=
  List.replicate 11 (.client (), { call := .start, callback := .ok 0 }) ++
    List.replicate trigger (.client (), { call := .trigger 1 2, callback := .ok 0 }) ++
    List.replicate worker (.worker, { callback := .ok 0 })

def Event.isInvoked : Event κ T E → Bool
  | .invoked _ _ => true
  | _ => false

/-- Under `SYNCHRONIZED` the predicate is asked. -/
theorem invoked_after_predicate_synchronized :
    ∃ s : State Unit Nat Unit, Reachable (initializedHandler Unit Nat Unit) ResumingAfterPredicate s ∧
      s.history.any Event.isInvoked = true ∧ Justified AfterPredicate s.history := by
  obtain ⟨s, hs, hp⟩ := exists_reachable_initialized (k := ()) (o := initWith {})
    ResumingAfterPredicate (startAndTrigger 13 6) (fun s => s.history.any Event.isInvoked)
    AsyncFunctionHandlerParams.default_valid rfl rfl (by decide)
  exact ⟨s, hs, hp, invoked_after_predicate hs⟩

/-- Under `DETACHED` the first trigger ends the pause that `init` has begun, the callback runs, and the
predicate has never been asked. -/
theorem invoked_without_predicate :
    ∃ s : State Unit Nat Unit,
      Reachable (initializedHandler Unit Nat Unit) (Calling configured) s ∧
        ¬ Justified AfterPredicate s.history := by
  obtain ⟨s, hs, hp⟩ := exists_reachable_initialized (k := ())
    (o := initWith { schedulingPolicy := .detached, clock := true, execRate := 100 })
    (Calling configured) (startAndTrigger 12 13)
    (fun s => s.history.any Event.isInvoked && !predicateHeld s.history)
    (by decide) rfl rfl (by decide)
  rw [Bool.and_eq_true, Bool.not_eq_true', List.any_eq_true] at hp
  obtain ⟨⟨e, hmem, he⟩, hnot⟩ := hp
  refine ⟨s, hs, fun hjustified => ?_⟩
  cases e with
  | invoked time period =>
    obtain ⟨before, after, hsplit⟩ := List.append_of_mem hmem
    obtain ⟨k, hk⟩ := hjustified before _ after hsplit time period rfl
    have hheld : predicateHeld s.history = true := by
      refine predicateHeld_iff.mpr ⟨k, ?_⟩
      rw [hsplit]
      exact List.mem_append_left _ hk
    exact Bool.noConfusion (hnot.symm.trans hheld)
  | _ => cases he

end AsyncFunctionHandler
