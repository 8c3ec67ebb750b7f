import RealtimeTools.AsyncHandler.Validity
import RealtimeTools.AsyncHandler.Overruns
import RealtimeTools.Sequential.Grid

/-!
# The catch-up after an overrun

The overrun branch of the detached loop counts the deadlines that are over in exact periods, of
`1.e3 / exec_rate` ms, and moves the deadline by as many periods of whole nanoseconds.
-/

namespace AsyncFunctionHandler

/-- The values of an `int`. -/
def IntRange (n : Int) : Prop := -2 ^ 31 ≤ n ∧ n < 2 ^ 31

/-- What the overrun branch is for.  The numbers that it computes are an `int`, and the new deadline is
not over and less than a period away. -/
structure CatchesUp (execRate : UInt32) (period next now : Int) : Prop where
  count : IntRange (overrunCount execRate (now - (next + period)))
  missed : IntRange (overrunCount execRate (now - (next + period)) + 1)
  not_over : now ≤ nextIterationTime execRate period next now
  within_period : nextIterationTime execRate period next now < now + period

/-- A period of a nanosecond at least, a count that an `int` holds, and a delay whose whole periods have
lost less, by being cut off to nanoseconds, than what they leave of it. -/
structure OnGrid (execRate : UInt32) (period delay : Int) : Prop where
  rate_le : execRate.toNat ≤ 1000000000
  count_le : delay * execRate.toNat ≤ (2 ^ 31 - 2) * 1000000000
  cut_off_lt : (delay - 1) / period * (1000000000 % execRate.toNat) <
    ((delay - 1) % period + 1) * execRate.toNat

/-! ## The count -/

theorem lt_overrunCount_iff {execRate : UInt32} {delay m : Int} :
    m < overrunCount execRate delay ↔ m * 1000000000 < delay * execRate.toNat := by
  have hexact : (delay : Rat) / 1000000 / (1000 / execRate.toNat) =
      delay * execRate.toNat / 1000000000 := by
    rw [div_div_eq_mul_div]
    ring
  rw [overrunCount, Rat.lt_ceil_iff, hexact, lt_div_iff₀ (by norm_num)]
  exact_mod_cast Iff.rfl

theorem overrunCount_eq_iff {execRate : UInt32} {delay k : Int} :
    overrunCount execRate delay = k ↔
      (k - 1) * 1000000000 < delay * execRate.toNat ∧ delay * execRate.toNat ≤ k * 1000000000 := by
  rw [← Int.not_lt (a := k * 1000000000), ← lt_overrunCount_iff, ← lt_overrunCount_iff]
  omega

theorem overrunCount_counted (execRate : UInt32) (delay : Int) :
    Grid.Counted 1000000000 execRate.toNat delay (overrunCount execRate delay) :=
  fun _ => lt_overrunCount_iff

theorem overrunCount_inRange_iff (execRate : UInt32) {delay : Int} (h : 0 < delay) :
    (IntRange (overrunCount execRate delay) ∧ IntRange (overrunCount execRate delay + 1)) ↔
      delay * execRate.toNat ≤ (2 ^ 31 - 2) * 1000000000 := by
  have hnonneg : 0 ≤ overrunCount execRate delay := by
    have hlow : -1 < overrunCount execRate delay := by
      have hmul : 0 ≤ delay * (execRate.toNat : Int) := mul_nonneg h.le (Int.natCast_nonneg _)
      exact lt_overrunCount_iff.mpr (by omega)
    omega
  rw [← Int.not_lt, ← lt_overrunCount_iff]
  unfold IntRange
  omega

/-- The period, whole nanoseconds. -/
theorem of_period {p : AsyncFunctionHandlerParams} {period : Int} (h : p.period = some period) :
    0 < p.execRate.toNat ∧ period = 1000000000 / (p.execRate.toNat : Int) := by
  obtain ⟨hrate, hperiod⟩ := Option.ite_none_left_eq_some.mp h
  refine ⟨Nat.pos_of_ne_zero fun hzero => hrate (UInt32.toNat_inj.mp hzero), ?_⟩
  rw [← Option.some.inj hperiod, UInt32.toNat_div]
  rfl

theorem period_pos_iff {p : AsyncFunctionHandlerParams} {period : Int} (h : p.period = some period) :
    0 < period ↔ p.execRate.toNat ≤ 1000000000 := by
  obtain ⟨hrate, rfl⟩ := of_period h
  have hle : 1 ≤ 1000000000 / (p.execRate.toNat : Int) ↔ 1 * (p.execRate.toNat : Int) ≤ 1000000000 :=
    Int.le_ediv_iff_mul_le (by omega)
  omega

/-! ## The deadline -/

section Deadline

variable {p : AsyncFunctionHandlerParams} {period next now : Int}

theorem nextIterationTime_of_lt {execRate : UInt32} (h : next + period < now) :
    nextIterationTime execRate period next now =
      next + period + overrunCount execRate (now - (next + period)) * period := if_pos h

/-- The branch never goes a period too far. -/
theorem nextIterationTime_lt (hperiod : p.period = some period) (hlate : next + period < now) :
    nextIterationTime p.execRate period next now < now + period := by
  obtain ⟨hrate, hfloor⟩ := of_period hperiod
  have hcounted := overrunCount_counted p.execRate (now - (next + period))
  have hlt := hcounted.lt_add (by omega) (by omega)
  rw [← hfloor] at hlt
  rw [nextIterationTime_of_lt hlate]
  omega

theorem le_nextIterationTime_iff (hperiod : p.period = some period) (hpos : 0 < period)
    (hlate : next + period < now) :
    now ≤ nextIterationTime p.execRate period next now ↔
      (now - (next + period) - 1) / period * (1000000000 % p.execRate.toNat) <
        ((now - (next + period) - 1) % period + 1) * p.execRate.toNat := by
  obtain ⟨hrate, hfloor⟩ := of_period hperiod
  have hcounted := overrunCount_counted p.execRate (now - (next + period))
  have hle := hcounted.le_iff (by rw [← hfloor]; exact hpos)
  rw [← hfloor] at hle
  rw [← hle, nextIterationTime_of_lt hlate]
  omega

theorem catchesUp_iff_onGrid (hperiod : p.period = some period) (hlate : next + period < now) :
    CatchesUp p.execRate period next now ↔
      OnGrid p.execRate period (now - (next + period)) := by
  have hrange := overrunCount_inRange_iff p.execRate (Int.sub_pos.mpr hlate)
  constructor
  · intro h
    have hpos : 0 < period := by
      by_contra hneg
      obtain ⟨hrate, hfloor⟩ := of_period hperiod
      have hzero : period = 0 :=
        le_antisymm (not_lt.mp hneg) (hfloor ▸ Int.ediv_nonneg (by omega) (by omega))
      have hover := h.not_over
      rw [nextIterationTime_of_lt hlate, hzero, mul_zero] at hover
      omega
    exact {
      rate_le := (period_pos_iff hperiod).mp hpos
      count_le := hrange.mp ⟨h.count, h.missed⟩
      cut_off_lt := (le_nextIterationTime_iff hperiod hpos hlate).mp h.not_over }
  · intro h
    have hpos := (period_pos_iff hperiod).mpr h.rate_le
    have hcount := hrange.mpr h.count_le
    exact {
      count := hcount.1
      missed := hcount.2
      not_over := (le_nextIterationTime_iff hperiod hpos hlate).mpr h.cut_off_lt
      within_period := nextIterationTime_lt hperiod hlate }

/-- **Back on the grid.**  For validated parameters exactly after the delays that `OnGrid` describes. -/
theorem catchesUp_iff (hvalid : p.validate = .valid) (hdetached : p.schedulingPolicy = .detached) :
    ∃ period, p.period = some period ∧ ∀ next now, next + period < now →
      (CatchesUp p.execRate period next now ↔
        OnGrid p.execRate period (now - (next + period))) := by
  have hrate := (detachedReady_of_valid hvalid (by rw [hdetached]; decide)).2
  exact ⟨_, period_of_rate hrate, fun _ _ => catchesUp_iff_onGrid (period_of_rate hrate)⟩

end Deadline

/-- At 300 Hz, 5 ms after a deadline. -/
theorem catchesUp_300Hz :
    ∃ period, (detachedParams true 300).period = some period ∧
      CatchesUp 300 period 0 (period + 5000000) := by
  obtain ⟨period, hperiod, hiff⟩ := catchesUp_iff (p := detachedParams true 300) (by decide) rfl
  obtain rfl : 3333333 = period := Option.some.inj hperiod
  exact ⟨3333333, hperiod, (hiff 0 (3333333 + 5000000) (by decide)).mpr
    ⟨by decide, by decide, by decide⟩⟩

/-- At 300 Hz, 10 ms after a deadline, the three periods of 3333333 ns that are added are a nanosecond
short.  At 1 kHz the count does not fit after 2 ^ 31 ms, and above 1 GHz there is no period at all. -/
theorem not_catchesUp :
    (detachedParams true 300).validate = .valid ∧
      (detachedParams true 300).period = some 3333333 ∧
      nextIterationTime 300 3333333 0 (3333333 + 10000000) = 3333333 + 10000000 - 1 ∧
      ¬ CatchesUp 300 3333333 0 (3333333 + 10000000) ∧
      (detachedParams true 1000).validate = .valid ∧
      (detachedParams true 1000).period = some 1000000 ∧
      ¬ CatchesUp 1000 1000000 0 (1000000 + 2 ^ 31 * 1000000) ∧
      (detachedParams true 2000000000).validate = .valid ∧
      (detachedParams true 2000000000).period = some 0 ∧
      ¬ CatchesUp 2000000000 0 0 1 := by
  have hnext : nextIterationTime 300 3333333 0 (3333333 + 10000000) = 3333333 + 10000000 - 1 := by
    have hcount : overrunCount 300 (3333333 + 10000000 - (0 + 3333333)) = 3 :=
      overrunCount_eq_iff.mpr (by decide)
    rw [nextIterationTime_of_lt (by decide), hcount]
    rfl
  have hlarge : overrunCount 1000 (1000000 + 2 ^ 31 * 1000000 - (0 + 1000000)) = 2 ^ 31 :=
    overrunCount_eq_iff.mpr (by decide)
  have hnone : nextIterationTime 2000000000 0 0 1 = 0 := by
    rw [nextIterationTime_of_lt (by decide), mul_zero]
    rfl
  refine ⟨by decide, by decide, hnext, fun h => ?_, by decide, by decide, fun h => ?_, by decide,
    by decide, fun h => ?_⟩
  · exact absurd (hnext ▸ h.not_over) (by decide)
  · exact absurd (hlarge ▸ h.count.2) (by decide)
  · exact absurd (hnone ▸ h.not_over) (by decide)

/-- For a rate that divides 1 GHz nothing is cut off, and only the `int` limits the delay. -/
theorem onGrid_iff_of_dvd {execRate : UInt32} {delay : Int}
    (hdvd : execRate.toNat ∣ 1000000000) :
    OnGrid execRate (1000000000 / execRate.toNat) delay ↔
      delay * execRate.toNat ≤ (2 ^ 31 - 2) * 1000000000 := by
  have hrate : 0 < execRate.toNat := Nat.pos_of_dvd_of_pos hdvd (by decide)
  have hnone : (1000000000 : Int) % execRate.toNat = 0 :=
    Int.emod_eq_zero_of_dvd (Int.natCast_dvd_natCast.mpr hdvd)
  refine ⟨OnGrid.count_le, fun hcount => ⟨Nat.le_of_dvd (by decide) hdvd, hcount, ?_⟩⟩
  rw [hnone, mul_zero]
  have hrest : 0 ≤ (delay - 1) % (1000000000 / execRate.toNat) :=
    Int.emod_nonneg _ (Int.ediv_pos_of_pos_of_dvd (by decide) (Int.natCast_nonneg _)
      (Int.natCast_dvd_natCast.mpr hdvd)).ne'
  exact mul_pos (by omega) (by omega)

/-! ## The deadline the worker sleeps until -/

section Timed

variable {κ T E : Type} [DecidableEq κ] [Inhabited T] {s s' : Timed κ T E} {o : TimedOracle κ T E}
  {period : Duration}

/-- The deadlines of the loop from the next one on. -/
def Timed.deadlines (s : Timed κ T E) (period : Duration) (h : 0 < period) : Grid Time where
  origin := s.nextIterationTime + period
  step := period
  step_pos := h

theorem timedStep_schedule (hpc : s.worker = .loop .detached .schedule)
    (hperiod : s.period = some period) (hs : timedStep (.thread .worker) o s = some s') :
    s'.nextIterationTime = nextIterationTime s.handler.params.execRate period s.nextIterationTime
      s.clock := by
  obtain ⟨handler, hstep, rfl⟩ := Option.map_eq_some_iff.mp hs
  have hworker := workerStep_of_step hstep
  have hpc : s.handler.worker = .loop .detached .schedule := hpc
  have hperiod : s.handler.params.period = some period := hperiod
  simp only [workerStep, hpc, executeDetachedCallback, hperiod] at hworker
  obtain rfl := Option.some.inj hworker
  rfl

/-- The worker sleeps until the first deadline that is to come and not over. -/
theorem sleeps_until_next (hpc : s.worker = .loop .detached .schedule)
    (hperiod : s.period = some period) (hpos : 0 < period)
    (hgrid : s.Overruns →
      OnGrid s.handler.params.execRate period (s.clock - (s.nextIterationTime + period)))
    (hs : timedStep (.thread .worker) o s = some s') :
    s'.nextIterationTime =
      (s.deadlines period hpos).next (max s.clock (s.nextIterationTime + period)) := by
  rw [timedStep_schedule hpc hperiod hs]
  by_cases hlate : s.nextIterationTime + period < s.clock
  · have hcatches := (catchesUp_iff_onGrid hperiod hlate).mpr (hgrid ⟨hpc, period, hperiod, hlate⟩)
    have hpoint : nextIterationTime s.handler.params.execRate period s.nextIterationTime s.clock =
        (s.deadlines period hpos).point (overrunCount s.handler.params.execRate
          (s.clock - (s.nextIterationTime + period))) := by
      rw [nextIterationTime_of_lt hlate]
      rfl
    rw [max_eq_left hlate.le, hpoint, Grid.point_eq_next_iff, ← hpoint]
    exact ⟨hcatches.not_over, hcatches.within_period⟩
  · rw [nextIterationTime_of_not_lt hlate, max_eq_right (not_lt.mp hlate)]
    exact (Grid.next_origin (g := s.deadlines period hpos)).symm

end Timed

end AsyncFunctionHandler
