import RealtimeTools.AsyncHandler.Timed

/-!
# Overruns

In the ideal schedule the deadline `next_iteration_time` of the detached loop is known at every program
point, and with it when the overrun branch is taken.  A resume moves `previous_time_` but not the
deadline, so the time spent waiting for it counts as time the callback has taken.
-/

open Interleaving

namespace AsyncFunctionHandler

variable {κ T E : Type} {s s' : Timed κ T E} {o : TimedOracle κ T E}

/-- The next step of the worker takes the overrun branch, `next_iteration_time < time_now`. -/
def Timed.Overruns (s : Timed κ T E) : Prop :=
  s.worker = .loop .detached .schedule ∧
    ∃ period, s.period = some period ∧ s.nextIterationTime + period < s.clock

/-- Where the worker has waited for a resume, the callback it invokes ends within a period from the
deadline. -/
def ResumedInTime (s : Timed κ T E) (m : Mover κ) (o : TimedOracle κ T E) : Prop :=
  m = .thread .worker → s.worker.atInvoke = true → 0 < s.waited →
    ∀ period ∈ s.period, s.waited + o.duration ≤ period

instance [DecidableEq κ] (s : Timed κ T E) (m : Mover κ) (o : TimedOracle κ T E) :
    Decidable (ResumedInTime s m o) :=
  inferInstanceAs (Decidable (_ → _))

/-! ## The clock against the deadline -/

namespace Timed

/-- The clock against `next_iteration_time` in each phase.  What separates them when the callback is
invoked is the time spent in the wait. -/
def PunctualIn (s : Timed κ T E) : Phase → Prop
  | .outside => True
  | .due => s.clock = s.nextIterationTime + s.waited
  | .running => s.callbackStart = s.nextIterationTime + s.waited ∧
      s.clock ≤ s.callbackStart + s.duration
  | .returned => s.clock = s.nextIterationTime + s.waited + s.duration
  | .asleep => s.clock ≤ s.nextIterationTime

def Punctual (s : Timed κ T E) : Prop := s.PunctualIn s.worker.phase

end Timed

/-- The ideal schedule up to the first overrun. -/
def NoOverrunYet (s : Timed κ T E) (m : Mover κ) (o : TimedOracle κ T E) : Prop :=
  Ideal s m o ∧ (m = .thread .worker → ¬ s.Overruns)

theorem nextIterationTime_of_not_lt {execRate : UInt32} {period next now : Int}
    (h : ¬ next + period < now) : nextIterationTime execRate period next now = next + period :=
  if_neg h

theorem WorkerPc.of_running {pc : WorkerPc T E} (h : pc.phase = .running) :
    pc = .loop .detached .inCallback := by
  unfold WorkerPc.phase at h
  split at h <;> first | rfl | cases h

theorem WorkerPc.of_asleep {pc : WorkerPc T E} (h : pc.phase = .asleep) :
    pc = .loop .detached .sleepUntil := by
  unfold WorkerPc.phase at h
  split at h <;> first | rfl | cases h

/-- With a deadline or a result to go on from, the worker goes on. -/
theorem Timed.wakeTime_none (h : s.worker.phase = .due ∨ s.worker.phase = .returned) :
    s.wakeTime = none := by
  unfold Timed.wakeTime
  split
  case h_4 => rfl
  all_goals
    rename_i hw
    rw [hw] at h
    rcases h with h | h <;> cases h

/-- In the loop the worker can only wait for a resume where its deadline has come. -/
theorem Timed.blockedInLoop_of_waits (h : s.waitsForResume = true)
    (hphase : s.worker.phase ≠ .outside) :
    s.worker.blockedInLoop = true ∧ s.worker.phase = .due := by
  have hblocked : s.worker.blockedInPause = true := by
    simp only [Timed.waitsForResume, Bool.and_eq_true] at h
    exact h.1.1
  unfold WorkerPc.blockedInPause at hblocked
  split at hblocked
  · rename_i hw
    rw [hw] at hphase
    exact absurd rfl hphase
  · rename_i hw
    rw [hw]
    exact ⟨rfl, rfl⟩
  · cases hblocked

/-- The clock goes on. -/
theorem Timed.Punctual.elapse (h : s.Punctual) (hp : Ideal s .clock o) :
    (s.elapse o.elapsed).Punctual := by
  obtain ⟨hwake, hresume⟩ := hp
  unfold Timed.Punctual at h
  show (s.elapse o.elapsed).PunctualIn s.worker.phase
  have hclock : (s.elapse o.elapsed).clock = s.clock + o.elapsed := rfl
  cases hphase : s.worker.phase with
  | outside => trivial
  | due =>
    rw [hphase] at h
    have hdue : s.clock = s.nextIterationTime + s.waited := h
    have hwaits := hresume (Timed.wakeTime_none (.inl hphase))
    have hblocked := (Timed.blockedInLoop_of_waits hwaits (by rw [hphase]; decide)).1
    have hwaited : (s.elapse o.elapsed).waited = s.waited + o.elapsed := if_pos hblocked
    show (s.elapse o.elapsed).clock = s.nextIterationTime + (s.elapse o.elapsed).waited
    rw [hclock, hwaited, hdue, Int.add_assoc]
  | running =>
    rw [hphase] at h
    have hpc := WorkerPc.of_running hphase
    have hwaited : (s.elapse o.elapsed).waited = s.waited :=
      if_neg (by rw [hpc]; exact Bool.false_ne_true)
    refine ⟨?_, hwake _ ?_⟩
    · show s.callbackStart = s.nextIterationTime + (s.elapse o.elapsed).waited
      rw [hwaited]
      exact h.1
    · simp [Timed.wakeTime, hpc, Timed.elapse]
  | returned =>
    have hwaits := hresume (Timed.wakeTime_none (.inr hphase))
    have hdue := (Timed.blockedInLoop_of_waits hwaits (by rw [hphase]; decide)).2
    cases hphase.symm.trans hdue
  | asleep =>
    refine hwake _ ?_
    simp [Timed.wakeTime, WorkerPc.of_asleep hphase, Timed.elapse, Timed.nextIterationTime]

theorem Timed.PunctualIn.congr {phase : Phase} (h : s.PunctualIn phase) (hclock : s'.clock = s.clock)
    (hnext : s'.nextIterationTime = s.nextIterationTime) (hwaited : s'.waited = s.waited)
    (hstart : s'.callbackStart = s.callbackStart) (hduration : s'.duration = s.duration) :
    s'.PunctualIn phase := by
  cases phase with
  | outside => trivial
  | due | running | returned | asleep =>
    simp only [Timed.PunctualIn, hclock, hnext, hwaited, hstart, hduration] at h ⊢
    exact h

/-- The worker moves before the first overrun. -/
theorem Timed.Punctual.worker {handler : State κ T E} (h : s.Punctual)
    (hp : NoOverrunYet s (.thread .worker) o)
    (hphase : PhaseStep { o.toOracle with steadyNow := s.clock } s.handler handler) :
    (s.workerMoved o.duration handler).Punctual := by
  obtain ⟨⟨hwake, hcallback⟩, hno⟩ := hp
  have hnot := hno rfl
  unfold Timed.Punctual at h
  show (s.workerMoved o.duration handler).PunctualIn handler.worker.phase
  cases hphase with
  | keep hinvoke hbeginning hphase hnext =>
    rcases hphase with hphase | hphase
    · rw [hphase]
      exact h.congr rfl hnext (Timed.waited_workerMoved hbeginning)
        (Timed.callbackStart_workerMoved hinvoke) (Timed.duration_workerMoved hinvoke)
    · rw [hphase]
      trivial
  | enter hpc hphase hnext =>
    have hpc : s.worker = .prologue .readSteady := hpc
    rw [hphase]
    show s.clock = handler.nextIterationTime + (s.workerMoved o.duration handler).waited
    rw [hnext, Timed.waited_workerMoved_of_beginning (by rw [hpc]; rfl), Int.add_zero]
  | invoke hpc hphase hnext =>
    have hpc : s.worker = .loop .detached .invoke := hpc
    rw [hpc] at h
    have hdue : s.clock = s.nextIterationTime + s.waited := h
    have hinvoke : s.worker.atInvoke = true := by rw [hpc]; rfl
    have hbeginning : s.worker.beginning = false := by rw [hpc]; rfl
    have hnonneg := (hcallback hinvoke).1
    rw [hphase]
    refine ⟨?_, ?_⟩
    · rw [Timed.callbackStart_workerMoved_of_atInvoke hinvoke, Timed.waited_workerMoved hbeginning,
        hdue]
      exact congrArg (· + s.waited) hnext.symm
    · rw [Timed.callbackStart_workerMoved_of_atInvoke hinvoke,
        Timed.duration_workerMoved_of_atInvoke hinvoke]
      exact Int.le_add_of_nonneg_right hnonneg
  | «return» hpc hphase hnext =>
    have hpc : s.worker = .loop .detached .inCallback := hpc
    rw [hpc] at h
    obtain ⟨hstart, hle⟩ := h
    have hended := hwake (s.callbackStart + s.duration) (by simp [Timed.wakeTime, hpc])
    rw [hphase]
    show s.clock = handler.nextIterationTime + (s.workerMoved o.duration handler).waited +
      (s.workerMoved o.duration handler).duration
    have hnext : handler.nextIterationTime = s.nextIterationTime := hnext
    rw [Timed.waited_workerMoved (by rw [hpc]; rfl), Timed.duration_workerMoved (by rw [hpc]; rfl),
      hnext, ← hstart]
    exact Int.le_antisymm hle hended
  | schedule period hpc hphase hperiod hnext =>
    have hkept : ¬ s.nextIterationTime + period < s.clock :=
      fun hlt => hnot ⟨hpc, period, hperiod, hlt⟩
    have hnext : handler.nextIterationTime = s.nextIterationTime + period :=
      hnext.trans (nextIterationTime_of_not_lt hkept)
    rw [hphase]
    show s.clock ≤ handler.nextIterationTime
    rw [hnext]
    exact Int.not_lt.mp hkept
  | wake hpc hphase hnext =>
    have hpc : s.worker = .loop .detached .sleepUntil := hpc
    rw [hpc] at h
    have hle : s.clock ≤ s.nextIterationTime := h
    have hended := hwake s.nextIterationTime (by simp [Timed.wakeTime, hpc])
    rw [hphase]
    show s.clock = handler.nextIterationTime + (s.workerMoved o.duration handler).waited
    have hnext : handler.nextIterationTime = s.nextIterationTime := hnext
    rw [Timed.waited_workerMoved_of_beginning (by rw [hpc]; rfl), hnext, Int.add_zero]
    exact Int.le_antisymm hle hended

/-- A step before the first overrun keeps the clock and the deadline together. -/
theorem Timed.Punctual.move {m : Mover κ} (h : s.Punctual) (hp : NoOverrunYet s m o)
    (hmove : TimedMove o s m s') : s'.Punctual := by
  cases hmove with
  | clock => exact h.elapse hp.1
  | worker handler hphase _ => exact h.worker hp hphase
  | client k handler hworker hnext _ =>
    show Timed.PunctualIn { s with handler } handler.worker.phase
    rw [hworker]
    exact Timed.PunctualIn.congr h rfl hnext rfl rfl rfl

/-! ## Resumes in time -/

/-- The callback that has been invoked ends within a period from the deadline. -/
def Timed.EndsInTime (s : Timed κ T E) : Prop :=
  s.worker.phase = .running ∨ s.worker.phase = .returned →
    ∀ period ∈ s.period, s.waited + s.duration ≤ period

theorem WorkerPc.due_of_blockedInLoop {pc : WorkerPc T E} (h : pc.blockedInLoop = true) :
    pc.phase = .due := by
  unfold WorkerPc.blockedInLoop at h
  split at h
  · rfl
  · cases h

theorem Timed.EndsInTime.elapse {elapsed : Duration} (h : s.EndsInTime) :
    (s.elapse elapsed).EndsInTime := by
  intro hphase
  have hphase : s.worker.phase = .running ∨ s.worker.phase = .returned := hphase
  have hnot : ¬ s.worker.blockedInLoop = true := by
    intro hblocked
    rw [WorkerPc.due_of_blockedInLoop hblocked] at hphase
    rcases hphase with hphase | hphase <;> cases hphase
  have hwaited : (s.elapse elapsed).waited = s.waited := if_neg hnot
  rw [hwaited]
  exact h hphase

theorem Timed.EndsInTime.worker {handler : State κ T E} (h : s.EndsInTime)
    (hp : Ideal s (.thread .worker) o ∧ ResumedInTime s (.thread .worker) o)
    (hphase : PhaseStep { o.toOracle with steadyNow := s.clock } s.handler handler)
    (hparams : handler.params = s.handler.params) :
    (s.workerMoved o.duration handler).EndsInTime := by
  obtain ⟨⟨_, hcallback⟩, hresumed⟩ := hp
  intro hin
  have hin : handler.worker.phase = .running ∨ handler.worker.phase = .returned := hin
  have hperiod : (s.workerMoved o.duration handler).period = s.period :=
    congrArg AsyncFunctionHandlerParams.period hparams
  rw [hperiod]
  -- Outside an invocation and a wake-up the timers stay.
  have hsame : s.worker.atInvoke = false → s.worker.beginning = false →
      s.worker.phase = .running ∨ s.worker.phase = .returned → ∀ period ∈ s.period,
        (s.workerMoved o.duration handler).waited + (s.workerMoved o.duration handler).duration ≤
          period := by
    intro hinvoke hbeginning hbefore
    rw [Timed.waited_workerMoved hbeginning, Timed.duration_workerMoved hinvoke]
    exact h hbefore
  cases hphase with
  | keep hinvoke hbeginning hphase hnext =>
    rcases hphase with hphase | hphase
    · exact hsame hinvoke hbeginning (hphase ▸ hin)
    · rw [hphase] at hin
      rcases hin with hin | hin <;> cases hin
  | «return» hpc hphase hnext =>
    have hpc : s.worker = .loop .detached .inCallback := hpc
    exact hsame (by rw [hpc]; rfl) (by rw [hpc]; rfl) (.inl (by rw [hpc]; rfl))
  | invoke hpc hphase hnext =>
    have hpc : s.worker = .loop .detached .invoke := hpc
    have hinvoke : s.worker.atInvoke = true := by rw [hpc]; rfl
    rw [Timed.waited_workerMoved (by rw [hpc]; rfl), Timed.duration_workerMoved_of_atInvoke hinvoke]
    intro period hp
    by_cases hlate : 0 < s.waited
    · exact hresumed rfl hinvoke hlate period hp
    -- Without a wait the callback has the whole period.
    · calc
        s.waited + o.duration ≤ 0 + o.duration := Int.add_le_add_right (Int.not_lt.mp hlate) _
        _ = o.duration := Int.zero_add _
        _ ≤ period := Int.le_of_lt ((hcallback hinvoke).2 period hp)
  | enter _ hphase _ | schedule _ _ hphase _ _ | wake _ hphase _ =>
    rw [hphase] at hin
    rcases hin with hin | hin <;> cases hin

/-! ## Runs -/

section Runs

variable [DecidableEq κ] [Inhabited T]

theorem punctual (h : Reachable (timedHandler κ T E) NoOverrunYet s) : s.Punctual := by
  refine h.invariant (I := Timed.Punctual) ?_ ?_
  · rintro s ⟨params, pauseThread, previousTime, _, hs⟩
    show s.PunctualIn s.handler.worker.phase
    rw [hs]
    trivial
  · intro s m o s' hr hpunctual hp hs
    exact hpunctual.move hp (timedStep_move (started_of_timed (fun _ _ _ hp => hp.1) hr) hs)

/-- In the first overrun the callback has ended more than a period after the deadline: the time spent
waiting for a resume counts as time the callback has taken. -/
theorem overruns_iff (h : Reachable (timedHandler κ T E) NoOverrunYet s) {period : Duration}
    (hpc : s.worker = .loop .detached .schedule) (hperiod : s.period = some period) :
    s.Overruns ↔ period < s.waited + s.duration := by
  have hpunctual := punctual h
  unfold Timed.Punctual at hpunctual
  rw [hpc] at hpunctual
  have hclock : s.clock = s.nextIterationTime + s.waited + s.duration := hpunctual
  have hlate : s.nextIterationTime + period < s.clock ↔ period < s.waited + s.duration := by
    rw [hclock, Int.add_assoc]
    exact Int.add_lt_add_iff_left _
  constructor
  · rintro ⟨_, p, hp, hlt⟩
    obtain rfl : period = p := Option.some.inj (hperiod.symm.trans hp)
    exact hlate.mp hlt
  · exact fun hlt => ⟨hpc, period, hperiod, hlate.mpr hlt⟩

theorem Timed.EndsInTime.not_overruns (h : s.EndsInTime)
    (hr : Reachable (timedHandler κ T E) NoOverrunYet s) : ¬ s.Overruns := by
  intro hover
  obtain ⟨hpc, period, hperiod, _⟩ := id hover
  have hlate := (overruns_iff hr hpc hperiod).mp hover
  have hle := h (.inr (by rw [hpc]; rfl)) period hperiod
  exact absurd hlate (Int.not_lt.mpr hle)

/-- **No overruns after resumes in time.**  In an ideal schedule in which every callback that follows
a wait for a resume ends within a period from the deadline, the overrun branch is never taken. -/
theorem never_overruns (h : Reachable (timedHandler κ T E)
    (fun s m o => Ideal s m o ∧ ResumedInTime s m o) s) : ¬ s.Overruns := by
  have hall : Reachable (timedHandler κ T E) NoOverrunYet s ∧ s.EndsInTime := by
    refine h.invariant
      (I := fun s => Reachable (timedHandler κ T E) NoOverrunYet s ∧ s.EndsInTime) ?_ ?_
    · intro s hs
      refine ⟨.start hs, ?_⟩
      obtain ⟨params, pauseThread, previousTime, _, hs⟩ := hs
      unfold Timed.EndsInTime Timed.worker
      rw [hs]
      intro hphase
      rcases hphase with hphase | hphase <;> cases hphase
    · rintro s m o s' _ ⟨hr, hends⟩ hp hs
      have hstarted := started_of_timed (fun _ _ _ hp => hp.1) hr
      refine ⟨hr.step ⟨hp.1, fun _ => hends.not_overruns hr⟩ hs, ?_⟩
      cases timedStep_move hstarted hs with
      | clock => exact hends.elapse
      | worker handler hphase hparams => exact hends.worker hp hphase hparams
      | client k handler hworker _ hparams =>
        unfold Timed.EndsInTime Timed.worker Timed.period at hends ⊢
        rw [hworker, hparams]
        exact hends
  exact hall.2.not_overruns hall.1

end Runs

/-! ## A pause of one client -/

/-- A handler of 100 Hz, started and not paused. -/
def startedAt100Hz : Timed Unit Nat Unit where
  handler := started { schedulingPolicy := .detached, clock := true, execRate := 100 } false 0
  clock := 0
  sleepEnd := 0
  callbackStart := 0
  duration := 0
  waited := 0

abbrev TimedSchedule := List (Mover Unit × TimedOracle Unit Nat Unit)

/-- Some steps of the worker; a callback that is invoked takes 4 ms. -/
def workerSteps (steps : ℕ) : TimedSchedule :=
  List.replicate steps (.thread .worker, { callback := .ok 0, duration := 4000000 })

def clientSteps (call : Call) (steps : ℕ) : TimedSchedule :=
  List.replicate steps (.thread (.client ()), { callback := .ok 0, call := call })

def timePasses (elapsed : Duration) : TimedSchedule :=
  [(.clock, { callback := .ok 0, elapsed := elapsed })]

/-- The handler is paused before its first iteration, the worker waits, and then it is resumed and
invokes the callback. -/
def pausedRun (wait : Duration) : TimedSchedule :=
  workerSteps 5 ++ clientSteps .pause 6 ++ timePasses 10000000 ++ workerSteps 7 ++ timePasses wait ++
    clientSteps (.trigger 1 2) 11 ++ workerSteps 6 ++ timePasses 4000000 ++ workerSteps 2

/-- Resumed after 3 ms, the worker is back within its period of 10 ms. -/
theorem never_overruns_resumed :
    ∃ s : Timed Unit Nat Unit, Reachable (timedHandler Unit Nat Unit)
      (fun s m o => Ideal s m o ∧ ResumedInTime s m o) s ∧
      s.worker = .loop .detached .schedule ∧ s.waited = 3000000 ∧ ¬ s.Overruns := by
  obtain ⟨s, hs, hp⟩ := exists_reachable_of_exec (timedHandler Unit Nat Unit)
    (fun s m o => Ideal s m o ∧ ResumedInTime s m o) (pausedRun 3000000) startedAt100Hz
    (fun s => s.worker = .loop .detached .schedule ∧ s.waited = 3000000)
    ⟨_, _, _, rfl, rfl⟩ (by decide)
  obtain ⟨hpc, hwaited⟩ : s.worker = .loop .detached .schedule ∧ s.waited = 3000000 := by
    simpa using hp
  exact ⟨s, hs, hpc, hwaited, never_overruns hs⟩

/-- Resumed after two seconds, the worker finds its deadline long over although the callback has taken
4 ms of its 10. -/
theorem overruns_after_pause :
    ∃ s : Timed Unit Nat Unit, Reachable (timedHandler Unit Nat Unit) Ideal s ∧
      s.handler.params.validate = .valid ∧ s.Overruns := by
  obtain ⟨s, hs, hp⟩ := exists_reachable_of_exec (timedHandler Unit Nat Unit) Ideal
    (pausedRun 2000000000) startedAt100Hz
    (fun s => s.handler.params.validate = .valid ∧ s.worker = .loop .detached .schedule ∧
      s.period = some 10000000 ∧ s.nextIterationTime + 10000000 < s.clock)
    ⟨_, _, _, rfl, rfl⟩ (by decide)
  obtain ⟨hvalid, hpc, hperiod, hlate⟩ : s.handler.params.validate = .valid ∧
      s.worker = .loop .detached .schedule ∧ s.period = some 10000000 ∧
      s.nextIterationTime + 10000000 < s.clock := by simpa using hp
  exact ⟨s, hs, hvalid, hpc, 10000000, hperiod, hlate⟩

end AsyncFunctionHandler
