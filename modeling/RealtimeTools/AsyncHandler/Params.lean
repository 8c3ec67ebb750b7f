import Mathlib.Data.Rat.Floor

/-!
# Parameters of an asynchronous handler

`AsyncSchedulingPolicy` and `AsyncFunctionHandlerParams`.  A pointer or function that is only tested
for null is the Boolean "not null".
-/

namespace AsyncFunctionHandler

inductive AsyncSchedulingPolicy
  | unknown
  | synchronized
  | detached
  deriving DecidableEq, Repr

structure AsyncFunctionHandlerParams where
  threadPriority : Int32 := 50
  cpuAffinityCores : List Int32 := []
  schedulingPolicy : AsyncSchedulingPolicy := .synchronized
  execRate : UInt32 := 0
  clock : Bool := false
  triggerPredicate : Bool := true
  waitUntilInitialTrigger : Bool := true
  printWarnings : Bool := true
  threadName : String := ""
  deriving DecidableEq

/-- How `validate` ends: true, false after an error message, or an exception. -/
inductive Validation
  | valid
  | invalid (error : String)
  | throws (what : String)
  deriving DecidableEq

namespace AsyncFunctionHandlerParams

def unknownPolicyText : String :=
  "AsyncFunctionHandlerParams: scheduling policy is unknown. " ++
    "Please set it to either 'synchronized' or 'detached'."

def validateCores : List Int32 → Validation
  | [] => .valid
  | core :: cores =>
      if core < 0 then
        .invalid ("Invalid CPU core id: " ++ toString core ++ ". It should be a non-negative integer.")
      else validateCores cores

def validate (p : AsyncFunctionHandlerParams) : Validation :=
  if p.threadPriority < 0 ∨ p.threadPriority > 99 then
    .invalid ("Invalid thread priority: " ++ toString p.threadPriority ++
      ". It should be between 0 and 99.")
  else if p.schedulingPolicy = .detached ∧ p.clock = false then
    .invalid "Clock must be set when using DETACHED scheduling policy."
  else if p.schedulingPolicy = .detached ∧ p.execRate = 0 then
    .invalid "Execution rate must be set when using DETACHED scheduling policy."
  else if p.schedulingPolicy = .unknown then .throws unknownPolicyText
  else if p.triggerPredicate = false then .invalid "The parsed trigger predicate is not valid!"
  else validateCores p.cpuAffinityCores

theorem validateCores_eq_valid_iff {cores : List Int32} :
    validateCores cores = .valid ↔ ∀ core ∈ cores, ¬ core < 0 := by
  induction cores with
  | nil => simp [validateCores]
  | cons core cores ih =>
    simp only [validateCores, List.mem_cons, forall_eq_or_imp]
    split
    · rename_i hneg
      simp [hneg]
    · rename_i hneg
      simp [hneg, ih]

/-- What `validate` checks. -/
theorem validate_eq_valid_iff {p : AsyncFunctionHandlerParams} :
    p.validate = .valid ↔
      ¬ (p.threadPriority < 0 ∨ p.threadPriority > 99) ∧
        (p.schedulingPolicy = .detached → p.clock = true ∧ p.execRate ≠ 0) ∧
        p.schedulingPolicy ≠ .unknown ∧ p.triggerPredicate = true ∧
        ∀ core ∈ p.cpuAffinityCores, ¬ core < 0 := by
  rw [← validateCores_eq_valid_iff]
  unfold validate
  split_ifs with hpriority hclock hrate hunknown hpredicate
  · simp [hpriority]
  · simp [hclock.1, hclock.2]
  · simp [hrate.1, hrate.2]
  · simp [hunknown]
  · simp [hpredicate]
  · have hdetached : p.schedulingPolicy = .detached → p.clock = true ∧ p.execRate ≠ 0 :=
      fun hd => ⟨by simpa [hd] using hclock, by simpa [hd] using hrate⟩
    exact ⟨fun hcores => ⟨hpriority, hdetached, hunknown, by simpa using hpredicate, hcores⟩,
      fun hvalid => hvalid.2.2.2.2⟩

theorem default_valid : ({} : AsyncFunctionHandlerParams).validate = .valid := by decide

/-- `1'000'000'000 / exec_rate`, in nanoseconds; there is none where the division is undefined. -/
def period (p : AsyncFunctionHandlerParams) : Option Int :=
  if p.execRate = 0 then none else some (1000000000 / p.execRate).toNat

end AsyncFunctionHandlerParams

/-- `ceil(time_diff / cm_period)` in exact arithmetic, for a delay in nanoseconds. -/
def overrunCount (execRate : UInt32) (delay : Int) : Int :=
  Rat.ceil ((delay : Rat) / 1000000 / (1000 / (execRate.toNat : Rat)))

/-- The deadline after one more period and, if it is already over, after the overrun. -/
def nextIterationTime (execRate : UInt32) (period next now : Int) : Int :=
  let next := next + period
  if next < now then next + overrunCount execRate (now - next) * period else next

end AsyncFunctionHandler
