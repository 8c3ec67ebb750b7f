import RealtimeTools.AsyncHandler.Params
import RealtimeTools.Helpers.Affinity

/-!
# The cores of the worker

Before its loop the worker thread is pinned to `cpu_affinity_cores`.  It runs on wherever that fails,
after a warning.
-/

open RealtimeHelpers

namespace AsyncFunctionHandler

variable {Thread : Type}

structure Pinning (Thread : Type) where
  attempt : Attempt Thread
  warning : String

def notPinnedText (error : String) : String :=
  "Could not set CPU affinity for the async worker thread. Error: " ++ error

def pinnedText (cores : List Int32) : String :=
  "Async worker thread successfully pinned to Cores: [" ++
    ", ".intercalate (cores.map toString) ++ "]"

/-- The part of the thread function that is about `cpu_affinity_cores`; nothing is done if there are
none. -/
def pinWorker (linux : Linux) (self : Thread) (p : AsyncFunctionHandlerParams) :
    Option (Pinning Thread) :=
  if p.cpuAffinityCores = [] then none
  else
    (setCurrentThreadAffinity linux self p.cpuAffinityCores).map fun attempt =>
      { attempt
        warning :=
          if attempt.result.1 then pinnedText p.cpuAffinityCores
          else notPinnedText attempt.result.2 }

variable {linux : Linux} {self : Thread} {p : AsyncFunctionHandlerParams}

/-- Of validated cores only those beyond the last processor are refused. -/
theorem available_iff_of_valid {numberOfCores : Int64} (hvalid : p.validate = .valid) :
    Available numberOfCores p.cpuAffinityCores ↔
      ∀ core ∈ p.cpuAffinityCores, core.toInt < numberOfCores.toInt := by
  obtain ⟨-, -, -, -, hcores⟩ := AsyncFunctionHandlerParams.validate_eq_valid_iff.mp hvalid
  refine forall₂_congr fun core hcore => and_iff_right ?_
  exact Int.not_lt.mp fun hlt => hcores core hcore (Int32.lt_iff_toInt_lt.mpr hlt)

theorem pinWorker_of_fill (self : Thread) {filled : Bool × CpuSet} (hcores : p.cpuAffinityCores ≠ [])
    (h : fillCpuSet linux.sysconf p.cpuAffinityCores = some filled) :
    ∃ pinning, pinWorker linux self p = some pinning ∧
      pinning.attempt = applyCpuSet linux self p.cpuAffinityCores filled ∧
      pinning.warning =
        if pinning.attempt.result.1 then pinnedText p.cpuAffinityCores
        else notPinnedText pinning.attempt.result.2 := by
  have hcall : setCurrentThreadAffinity linux self p.cpuAffinityCores =
      some (applyCpuSet linux self p.cpuAffinityCores filled) := by
    rw [setCurrentThreadAffinity, setThreadAffinity, getNumberOfAvailableProcessors, h]
    rfl
  exact ⟨_, by rw [pinWorker, if_neg hcores, hcall]; rfl, rfl, rfl⟩

/-- **The worker is pinned as configured.**  Where every validated core is the number of a processor,
the worker asks for these cores, as far as a mask has a bit for them, and its warning says whether the
system has agreed. -/
theorem pinWorker_available (hvalid : p.validate = .valid) (hcores : p.cpuAffinityCores ≠ [])
    (hlt : ∀ core ∈ p.cpuAffinityCores, core.toInt < linux.sysconf.toInt) :
    ∃ pinning cpuset, pinWorker linux self p = some pinning ∧
      pinning.attempt.passed = some (self, cpuset) ∧
      (∀ cpu, cpuset.isSet cpu = true ↔
        (∃ core ∈ p.cpuAffinityCores, core.toInt = cpu) ∧ cpu < cpuSetSize) ∧
      pinning.warning =
        if linux.pthreadSetaffinityNp = 0 then pinnedText p.cpuAffinityCores
        else notPinnedText (errnoText linux.strerror linux.errno) := by
  have hav := (available_iff_of_valid hvalid).mpr hlt
  cases fillCpuSet_fills linux.sysconf p.cpuAffinityCores with
  | refused h => exact absurd hav h
  | overflowed h => exact absurd h hcores
  | filled _ cpuset hset hfill =>
    obtain ⟨pinning, hpin, hattempt, hwarning⟩ := pinWorker_of_fill self hcores hfill
    refine ⟨pinning, cpuset, hpin, by rw [hattempt]; rfl, fun cpu => ?_, ?_⟩
    · rw [hset, Requested, if_neg hcores]
    · rw [hwarning, hattempt, applyCpuSet]
      by_cases hr : linux.pthreadSetaffinityNp = 0
      · simp only [setAffinityResultMessage, if_pos hr, if_true]
      · simp only [setAffinityResultMessage_of_failed hr, if_neg hr, Bool.false_eq_true, if_false]

/-- Otherwise nothing is asked for, and the worker runs on wherever it is. -/
theorem pinWorker_not_available (hvalid : p.validate = .valid)
    (hge : ∃ core ∈ p.cpuAffinityCores, linux.sysconf.toInt ≤ core.toInt) :
    ∃ pinning, pinWorker linux self p = some pinning ∧ pinning.attempt.passed = none ∧
      pinning.warning = notPinnedText (invalidCoresText linux.sysconf p.cpuAffinityCores) := by
  obtain ⟨core, hcore, hge⟩ := hge
  have hcores : p.cpuAffinityCores ≠ [] := List.ne_nil_of_mem hcore
  have hnot : ¬ Available linux.sysconf p.cpuAffinityCores := fun hav =>
    Int.not_lt.mpr hge ((available_iff_of_valid hvalid).mp hav core hcore)
  cases fillCpuSet_fills linux.sysconf p.cpuAffinityCores with
  | refused _ cpuset hfill =>
    obtain ⟨pinning, hpin, hattempt, hwarning⟩ := pinWorker_of_fill self hcores hfill
    refine ⟨pinning, hpin, by rw [hattempt]; rfl, ?_⟩
    rw [hwarning, hattempt]
    rfl
  | overflowed h => exact absurd h hcores
  | filled h => exact absurd h hnot

theorem notPinnedText_toList (error : String) :
    ∃ rest, (notPinnedText error).toList = 'C' :: rest := by
  obtain ⟨rest, hrest⟩ : ∃ rest,
      "Could not set CPU affinity for the async worker thread. Error: ".toList = 'C' :: rest :=
    ⟨_, String.toList_ofList⟩
  refine ⟨rest ++ error.toList, ?_⟩
  unfold notPinnedText
  rw [String.toList_append, hrest, List.cons_append]

theorem pinnedText_toList (cores : List Int32) : ∃ rest, (pinnedText cores).toList = 'A' :: rest := by
  obtain ⟨rest, hrest⟩ : ∃ rest,
      "Async worker thread successfully pinned to Cores: [".toList = 'A' :: rest :=
    ⟨_, String.toList_ofList⟩
  refine ⟨rest ++ (", ".intercalate (cores.map toString)).toList ++ "]".toList, ?_⟩
  unfold pinnedText
  rw [String.toList_append, String.toList_append, hrest, List.cons_append, List.cons_append]

/-- The two texts differ in their first letter. -/
theorem notPinnedText_ne (error : String) (cores : List Int32) :
    notPinnedText error ≠ pinnedText cores := by
  intro heq
  obtain ⟨rest, hnot⟩ := notPinnedText_toList error
  obtain ⟨rest', hpinned⟩ := pinnedText_toList cores
  rw [heq, hpinned] at hnot
  cases hnot

/-- What the worker does about its cores.  It asks for a mask exactly if each of them is the number of a
processor, the mask is for itself and has these cores as far as it has bits for them, and it reports to
be pinned exactly if it has asked and the system has agreed. -/
structure ReportsPinning (linux : Linux) (worker : Thread) (p : AsyncFunctionHandlerParams)
    (pinning : Pinning Thread) : Prop where
  asked_iff : pinning.attempt.passed.isSome = true ↔
    ∀ core ∈ p.cpuAffinityCores, core.toInt < linux.sysconf.toInt
  mask : ∀ thread cpuset, pinning.attempt.passed = some (thread, cpuset) → thread = worker ∧
    ∀ cpu, cpuset.isSet cpu = true ↔
      (∃ core ∈ p.cpuAffinityCores, core.toInt = cpu) ∧ cpu < cpuSetSize
  pinned_iff : pinning.warning = pinnedText p.cpuAffinityCores ↔
    pinning.attempt.passed.isSome = true ∧ linux.pthreadSetaffinityNp = 0

/-- **The worker says where it is pinned.**  For all validated parameters that name cores. -/
theorem worker_pinned (hvalid : p.validate = .valid) (hcores : p.cpuAffinityCores ≠ []) :
    ∃ pinning, pinWorker linux self p = some pinning ∧ ReportsPinning linux self p pinning := by
  by_cases hlt : ∀ core ∈ p.cpuAffinityCores, core.toInt < linux.sysconf.toInt
  · obtain ⟨pinning, cpuset, hpin, hpassed, hset, hwarning⟩ :=
      pinWorker_available hvalid hcores hlt
    refine ⟨pinning, hpin, iff_of_true (by rw [hpassed]; rfl) hlt, fun thread mask hmask => ?_, ?_⟩
    · obtain ⟨rfl, rfl⟩ : self = thread ∧ cpuset = mask := by simpa [hpassed] using hmask
      exact ⟨rfl, hset⟩
    · rw [hwarning, hpassed]
      by_cases hr : linux.pthreadSetaffinityNp = 0
      · rw [if_pos hr]
        exact iff_of_true rfl ⟨rfl, hr⟩
      · rw [if_neg hr]
        exact iff_of_false (notPinnedText_ne _ _) fun h => hr h.2
  · have hge : ∃ core ∈ p.cpuAffinityCores, linux.sysconf.toInt ≤ core.toInt := by
      push Not at hlt
      exact hlt
    obtain ⟨pinning, hpin, hpassed, hwarning⟩ := pinWorker_not_available hvalid hge
    refine ⟨pinning, hpin, iff_of_false (by simp [hpassed]) hlt, fun thread mask hmask => ?_, ?_⟩
    · rw [hpassed] at hmask
      cases hmask
    · rw [hwarning, hpassed]
      exact iff_of_false (notPinnedText_ne _ _) fun h => by cases h.1

/-- A system with four processors that agrees to everything. -/
def fourProcessors : Linux := ⟨4, 0, 0, fun _ => ""⟩

/-- One of the cores is listed twice. -/
def twoCores : AsyncFunctionHandlerParams := { cpuAffinityCores := [2, 0, 2] }

theorem worker_pinned_twoCores :
    ∃ pinning, pinWorker fourProcessors true twoCores = some pinning ∧
      pinning.attempt.passed.isSome = true ∧ pinning.warning = pinnedText [2, 0, 2] := by
  obtain ⟨pinning, hpin, hreports⟩ : ∃ pinning,
      pinWorker fourProcessors true twoCores = some pinning ∧
        ReportsPinning fourProcessors true twoCores pinning :=
    worker_pinned (by decide) (by decide)
  have hcores : ∀ core ∈ twoCores.cpuAffinityCores, core.toInt < fourProcessors.sysconf.toInt := by
    intro core hcore
    obtain rfl | rfl | rfl : core = 2 ∨ core = 0 ∨ core = 2 := by simpa [twoCores] using hcore
    all_goals decide
  have hpassed : pinning.attempt.passed.isSome = true := hreports.asked_iff.mpr hcores
  exact ⟨pinning, hpin, hpassed, hreports.pinned_iff.mpr ⟨hpassed, rfl⟩⟩

end AsyncFunctionHandler
