import Mathlib.Algebra.Order.Ring.Int

/-!
# Thread affinity

`set_thread_affinity` on Linux.  The cores that are asked for are collected in a mask of a fixed
size, whatever the number of processors is.
-/

namespace RealtimeHelpers

/-- `CPU_SETSIZE`. -/
def cpuSetSize : ℕ := 1024

/-- `cpu_set_t`. -/
abbrev CpuSet := BitVec cpuSetSize

namespace CpuSet

/-- `CPU_ZERO`. -/
def zero : CpuSet := 0

/-- `CPU_SET`, which does nothing for a processor the set has no bit for. -/
def set (cpuset : CpuSet) (cpu : UInt64) : CpuSet :=
  if cpu.toNat < cpuSetSize then cpuset ||| BitVec.twoPow cpuSetSize cpu.toNat else cpuset

/-- `CPU_ISSET`. -/
def isSet (cpuset : CpuSet) (cpu : ℕ) : Bool := cpuset.getLsbD cpu

theorem isSet_zero (cpu : ℕ) : zero.isSet cpu = false := BitVec.getLsbD_zero

theorem lt_of_isSet {cpuset : CpuSet} {cpu : ℕ} (h : cpuset.isSet cpu = true) : cpu < cpuSetSize :=
  BitVec.lt_of_getLsbD h

theorem isSet_set {cpuset : CpuSet} {added : UInt64} {cpu : ℕ} :
    (cpuset.set added).isSet cpu = true ↔
      cpuset.isSet cpu = true ∨ added.toNat = cpu ∧ cpu < cpuSetSize := by
  unfold set isSet
  split
  · rename_i hlt
    rw [BitVec.getLsbD_or, BitVec.getLsbD_twoPow, Bool.or_eq_true, Bool.and_eq_true,
      decide_eq_true_iff, decide_eq_true_iff]
    exact or_congr_right ⟨fun h => ⟨h.2, h.2 ▸ hlt⟩, fun h => ⟨hlt, h.1⟩⟩
  · rename_i hle
    exact ⟨.inl, fun h => h.resolve_right fun hnew => hle (hnew.1 ▸ hnew.2)⟩

/-- The order of the processors and duplicates do not matter, and those without a bit are lost. -/
theorem isSet_foldl_set {cpuset : CpuSet} {added : List UInt64} {cpu : ℕ} :
    (added.foldl set cpuset).isSet cpu = true ↔
      cpuset.isSet cpu = true ∨ (∃ a ∈ added, a.toNat = cpu) ∧ cpu < cpuSetSize := by
  induction added generalizing cpuset with
  | nil => simp
  | cons a added ih =>
    rw [List.foldl_cons, ih, isSet_set]
    simp only [List.mem_cons, or_and_right, exists_or, exists_eq_left, or_assoc]

end CpuSet

/-- What the calls outside the program return.  `pthread_setaffinity_np` returns 0 or an error number
and leaves `errno` as it is. -/
structure Linux where
  sysconf : Int64
  pthreadSetaffinityNp : Int32
  errno : Int32
  strerror : Int32 → String

/-! ## The calls -/

section Calls

variable {Thread : Type}

def getNumberOfAvailableProcessors (linux : Linux) : Int64 := linux.sysconf

def eperm : Int32 := 1
def esrch : Int32 := 3
def efault : Int32 := 14
def einval : Int32 := 22

/-- `switch (errno)`. -/
def errnoText (strerror : Int32 → String) (errno : Int32) : String :=
  if errno = efault then "Call of sched_setaffinity with invalid cpuset!"
  else if errno = einval then "Call of sched_setaffinity with an invalid cpu core!"
  else if errno = esrch then
    "Call of sched_setaffinity with a thread id/process id that is invalid or not found!"
  else if errno = eperm then "Call of sched_setaffinity with insufficient privileges!"
  else "Unknown error code: " ++ strerror errno

def setAffinityResultMessage (linux : Linux) (result : Int32) : Bool × String :=
  if result = 0 then (true, "Thread affinity set successfully!")
  else (false, errnoText linux.strerror linux.errno)

/-- The loop for an empty list.  Its counter is an `int`: there is no result where it overflows. -/
def setAll (numberOfCores : Int64) : Option CpuSet :=
  if numberOfCores.toInt < 2 ^ 31 then
    some ((List.range numberOfCores.toInt.toNat).foldl
      (fun cpuset i => cpuset.set (UInt64.ofNat i)) .zero)
  else none

/-- The loop over the cores, left at the first invalid one. -/
def setListed (numberOfCores : Int64) : List Int32 → CpuSet → Bool × CpuSet
  | [], cpuset => (true, cpuset)
  | core :: cores, cpuset =>
      if core < 0 ∨ core.toInt64 ≥ numberOfCores then (false, cpuset)
      else setListed numberOfCores cores (cpuset.set core.toInt64.toUInt64)

def invalidCoresText (numberOfCores : Int64) (cores : List Int32) : String :=
  let coreNumbers := cores.foldl (fun numbers core => numbers ++ (toString core ++ " ")) ""
  "Invalid core numbers : ['" ++ coreNumbers ++ "'] passed! The system has " ++
    toString numberOfCores ++ " cores. Parsed core number should be between 0 and " ++
    toString (numberOfCores - 1)

/-- What a call does: the arguments of its call of `pthread_setaffinity_np`, if it makes one, and what
it returns. -/
structure Attempt (Thread : Type) where
  passed : Option (Thread × CpuSet)
  result : Bool × String

/-- The mask, and whether every core is valid. -/
def fillCpuSet (numberOfCores : Int64) (cores : List Int32) : Option (Bool × CpuSet) :=
  if cores = [] then (setAll numberOfCores).map (true, ·)
  else some (setListed numberOfCores cores .zero)

def applyCpuSet (linux : Linux) (thread : Thread) (cores : List Int32) :
    Bool × CpuSet → Attempt Thread
  | (true, cpuset) =>
      { passed := some (thread, cpuset)
        result := setAffinityResultMessage linux linux.pthreadSetaffinityNp }
  | (false, _) =>
      { passed := none
        result := (false, invalidCoresText (getNumberOfAvailableProcessors linux) cores) }

def setThreadAffinity (linux : Linux) (thread : Thread) (cores : List Int32) :
    Option (Attempt Thread) :=
  (fillCpuSet (getNumberOfAvailableProcessors linux) cores).map (applyCpuSet linux thread cores)

/-- The overload for one core. -/
def setThreadAffinityCore (linux : Linux) (thread : Thread) (core : Int32) :
    Option (Attempt Thread) :=
  setThreadAffinity linux thread (if core < 0 then [] else [core])

/-- The overload for the thread that calls it. -/
def setCurrentThreadAffinity (linux : Linux) (self : Thread) (cores : List Int32) :
    Option (Attempt Thread) :=
  setThreadAffinity linux self cores

def passed (linux : Linux) (thread : Thread) (cores : List Int32) : Option (Thread × CpuSet) :=
  (setThreadAffinity linux thread cores).bind Attempt.passed

def report (linux : Linux) (thread : Thread) (cores : List Int32) : Option (Bool × String) :=
  (setThreadAffinity linux thread cores).map Attempt.result

end Calls

/-! ## The mask -/

/-- Every listed core is the number of a processor. -/
def Available (numberOfCores : Int64) (cores : List Int32) : Prop :=
  ∀ core ∈ cores, 0 ≤ core.toInt ∧ core.toInt < numberOfCores.toInt

/-- The processors a list asks for: those listed, and all of them if none is. -/
def Requested (numberOfCores : Int64) (cores : List Int32) (cpu : ℕ) : Prop :=
  if cores = [] then (cpu : Int) < numberOfCores.toInt else ∃ core ∈ cores, core.toInt = cpu

theorem toNat_core {core : Int32} (h : 0 ≤ core.toInt) :
    (core.toInt64.toUInt64.toNat : Int) = core.toInt := by
  have hle : 0 ≤ core.toInt64 := by
    rw [Int64.le_iff_toInt_le, Int32.toInt_toInt64]
    exact h
  rw [Int64.toNat_toUInt64_of_le hle]
  exact (Int.toNat_of_nonneg (by rwa [Int32.toInt_toInt64])).trans (Int32.toInt_toInt64 core)

theorem validCore_iff {numberOfCores : Int64} {core : Int32} :
    ¬ (core < 0 ∨ core.toInt64 ≥ numberOfCores) ↔
      0 ≤ core.toInt ∧ core.toInt < numberOfCores.toInt := by
  rw [not_or, Int32.lt_iff_toInt_lt, ge_iff_le, Int64.not_le, Int64.lt_iff_toInt_lt,
    Int32.toInt_toInt64]
  exact and_congr_left fun _ => Int.not_lt

theorem setListed_of_available {numberOfCores : Int64} {cores : List Int32} {cpuset : CpuSet}
    (h : Available numberOfCores cores) :
    setListed numberOfCores cores cpuset =
      (true, (cores.map fun core => core.toInt64.toUInt64).foldl CpuSet.set cpuset) := by
  induction cores generalizing cpuset with
  | nil => rfl
  | cons core cores ih =>
    have hcore := validCore_iff.mpr (h core List.mem_cons_self)
    unfold setListed
    rw [if_neg hcore, ih fun c hc => h c (List.mem_cons_of_mem _ hc)]
    rfl

theorem setListed_fst_iff {numberOfCores : Int64} {cores : List Int32} {cpuset : CpuSet} :
    (setListed numberOfCores cores cpuset).1 = true ↔ Available numberOfCores cores := by
  refine ⟨fun h => ?_, fun h => by rw [setListed_of_available h]⟩
  induction cores generalizing cpuset with
  | nil => exact List.forall_mem_nil _
  | cons core cores ih =>
    unfold setListed at h
    split at h
    · cases h
    · rename_i hcore
      exact List.forall_mem_cons.mpr ⟨validCore_iff.mp hcore, ih h⟩

theorem isSet_setListed {numberOfCores : Int64} {cores : List Int32}
    (h : Available numberOfCores cores) {cpu : ℕ} :
    (setListed numberOfCores cores .zero).2.isSet cpu = true ↔
      (∃ core ∈ cores, core.toInt = cpu) ∧ cpu < cpuSetSize := by
  rw [setListed_of_available h, CpuSet.isSet_foldl_set, CpuSet.isSet_zero]
  have hcores : (∃ a ∈ cores.map fun core => core.toInt64.toUInt64, a.toNat = cpu) ↔
      ∃ core ∈ cores, core.toInt = cpu := by
    simp only [List.mem_map, exists_exists_and_eq_and]
    refine exists_congr fun core => and_congr_right fun hcore => ?_
    rw [← toNat_core (h core hcore).1]
    exact Int.natCast_inj.symm
  simp only [Bool.false_eq_true, false_or, hcores]

theorem isSet_setAll {numberOfCores : Int64} {cpuset : CpuSet}
    (h : setAll numberOfCores = some cpuset) {cpu : ℕ} :
    cpuset.isSet cpu = true ↔ (cpu : Int) < numberOfCores.toInt ∧ cpu < cpuSetSize := by
  unfold setAll at h
  split at h
  · rename_i hint
    cases h
    rw [← List.foldl_map, CpuSet.isSet_foldl_set, CpuSet.isSet_zero]
    have hrange : (∃ a ∈ (List.range numberOfCores.toInt.toNat).map UInt64.ofNat, a.toNat = cpu) ↔
        (cpu : Int) < numberOfCores.toInt := by
      simp only [List.mem_map, List.mem_range, exists_exists_and_eq_and]
      constructor
      · rintro ⟨i, hi, rfl⟩
        rw [UInt64.toNat_ofNat_of_lt' (by simp only [UInt64.size]; omega)]
        omega
      · intro hcpu
        refine ⟨cpu, by omega, UInt64.toNat_ofNat_of_lt' (by simp only [UInt64.size]; omega)⟩
    simp only [Bool.false_eq_true, false_or, hrange]
  · cases h

/-- How the loops can end.  A mask that is passed holds what is requested, as far as there is a bit
for it. -/
inductive Fills (numberOfCores : Int64) (cores : List Int32) : Prop
  | refused (h : ¬ Available numberOfCores cores) (cpuset : CpuSet)
      (hfill : fillCpuSet numberOfCores cores = some (false, cpuset))
  | overflowed (h : cores = []) (hmax : 2 ^ 31 ≤ numberOfCores.toInt)
      (hfill : fillCpuSet numberOfCores cores = none)
  | filled (h : Available numberOfCores cores) (cpuset : CpuSet)
      (hset : ∀ cpu, cpuset.isSet cpu = true ↔
        Requested numberOfCores cores cpu ∧ cpu < cpuSetSize)
      (hfill : fillCpuSet numberOfCores cores = some (true, cpuset))

theorem fillCpuSet_fills (numberOfCores : Int64) (cores : List Int32) :
    Fills numberOfCores cores := by
  by_cases hcores : cores = []
  · have hav : Available numberOfCores cores := by
      rw [hcores]
      exact List.forall_mem_nil _
    have hfill : fillCpuSet numberOfCores cores = (setAll numberOfCores).map (true, ·) :=
      if_pos hcores
    by_cases hint : numberOfCores.toInt < 2 ^ 31
    · obtain ⟨cpuset, hall⟩ : ∃ cpuset, setAll numberOfCores = some cpuset := ⟨_, if_pos hint⟩
      refine .filled hav cpuset (fun cpu => ?_) (by rw [hfill, hall]; rfl)
      rw [Requested, if_pos hcores]
      exact isSet_setAll hall
    · exact .overflowed hcores (Int.not_lt.mp hint) (by rw [hfill, setAll, if_neg hint]; rfl)
  · have hfill : fillCpuSet numberOfCores cores = some (setListed numberOfCores cores .zero) :=
      if_neg hcores
    by_cases hav : Available numberOfCores cores
    · have hvalid : (setListed numberOfCores cores .zero).1 = true := setListed_fst_iff.mpr hav
      refine .filled hav (setListed numberOfCores cores .zero).2 (fun cpu => ?_)
        (by rw [hfill, ← hvalid])
      rw [Requested, if_neg hcores]
      exact isSet_setListed hav
    · have hinvalid : (setListed numberOfCores cores .zero).1 = false :=
        Bool.eq_false_iff.mpr fun hvalid => hav (setListed_fst_iff.mp hvalid)
      exact .refused hav (setListed numberOfCores cores .zero).2 (by rw [hfill, ← hinvalid])

/-! ## The reported error -/

def listedErrors : List Int32 := [efault, einval, esrch, eperm]

theorem errnoText_of_not_listed {strerror : Int32 → String} {errno : Int32}
    (h : errno ∉ listedErrors) :
    errnoText strerror errno = "Unknown error code: " ++ strerror errno := by
  simp only [listedErrors, List.mem_cons, List.not_mem_nil, or_false, not_or] at h
  obtain ⟨hfault, hinval, hsrch, hperm⟩ := h
  unfold errnoText
  rw [if_neg hfault, if_neg hinval, if_neg hsrch, if_neg hperm]

/-- The listed errors have texts of their own: the first letter differs from that of the others. -/
theorem errnoText_toList {strerror : Int32 → String} {errno : Int32} (h : errno ∈ listedErrors) :
    ∃ rest, (errnoText strerror errno).toList = 'C' :: rest := by
  simp only [listedErrors, List.mem_cons, List.not_mem_nil, or_false] at h
  obtain rfl | rfl | rfl | rfl := h
  all_goals exact ⟨_, String.toList_ofList⟩

theorem errnoText_ne_unknown {strerror : Int32 → String} {errno : Int32}
    (h : errno ∈ listedErrors) (text : String) :
    errnoText strerror errno ≠ "Unknown error code: " ++ text := by
  intro heq
  have hlisted : ∃ rest, (errnoText strerror errno).toList = 'C' :: rest := errnoText_toList h
  obtain ⟨rest, hrest⟩ := hlisted
  have hunknown : "Unknown error code: ".toList = 'U' :: _ := String.toList_ofList
  rw [heq, String.toList_append, hunknown] at hrest
  cases hrest

/-- Two error numbers are told apart unless neither is listed and `strerror` describes them alike. -/
theorem errnoText_eq_iff {strerror : Int32 → String} {errno errno' : Int32} :
    errnoText strerror errno = errnoText strerror errno' ↔
      errno = errno' ∨
        errno ∉ listedErrors ∧ errno' ∉ listedErrors ∧ strerror errno = strerror errno' := by
  by_cases hlisted : errno ∈ listedErrors <;> by_cases hlisted' : errno' ∈ listedErrors
  · simp only [hlisted, not_true_eq_false, false_and, or_false]
    simp only [listedErrors, List.mem_cons, List.not_mem_nil, or_false] at hlisted hlisted'
    obtain rfl | rfl | rfl | rfl := hlisted <;> obtain rfl | rfl | rfl | rfl := hlisted' <;>
      simp [errnoText, efault, einval, esrch, eperm]
  · rw [errnoText_of_not_listed hlisted']
    refine iff_of_false (errnoText_ne_unknown hlisted _) ?_
    rintro (rfl | h)
    · exact hlisted' hlisted
    · exact h.1 hlisted
  · rw [errnoText_of_not_listed hlisted, eq_comm]
    refine iff_of_false (errnoText_ne_unknown hlisted' _) ?_
    rintro (rfl | h)
    · exact hlisted hlisted'
    · exact h.2.1 hlisted'
  · rw [errnoText_of_not_listed hlisted, errnoText_of_not_listed hlisted', String.append_right_inj]
    refine ⟨fun h => .inr ⟨hlisted, hlisted', h⟩, ?_⟩
    rintro (rfl | h)
    · rfl
    · exact h.2.2

/-! ## What a call does -/

section Attempts

variable {Thread : Type} {linux : Linux} {thread : Thread} {cores : List Int32}

theorem passed_of_fill {filled : Option (Bool × CpuSet)}
    (h : fillCpuSet linux.sysconf cores = filled) :
    passed linux thread cores =
      filled.bind fun f => (applyCpuSet linux thread cores f).passed := by
  rw [← h]
  exact Option.bind_map

theorem report_of_fill {filled : Option (Bool × CpuSet)}
    (h : fillCpuSet linux.sysconf cores = filled) :
    report linux thread cores =
      filled.map fun f => (applyCpuSet linux thread cores f).result := by
  rw [← h]
  exact Option.map_map _ _ _

theorem setThreadAffinityCore_eq (core : Int32) :
    setThreadAffinityCore linux thread core =
      setThreadAffinity linux thread (if 0 ≤ core.toInt then [core] else []) := by
  unfold setThreadAffinityCore
  by_cases hcore : 0 ≤ core.toInt
  · have hneg : ¬ core < 0 := fun hlt => Int.not_lt.mpr hcore (Int32.lt_iff_toInt_lt.mp hlt)
    rw [if_pos hcore, if_neg hneg]
  · have hneg : core < 0 := Int32.lt_iff_toInt_lt.mpr (Int.not_le.mp hcore)
    rw [if_neg hcore, if_pos hneg]

/-- `set_thread_affinity` applies the cores it is given and reports the error that occurred: what
`pthread_setaffinity_np` returns decides the report, not the `errno` found. -/
structure AppliesRequested (linux : Linux) (thread : Thread) (cores : List Int32) : Prop where
  called_iff : (passed linux thread cores).isSome = true ↔ Available linux.sysconf cores
  mask : ∀ t cpuset, passed linux thread cores = some (t, cpuset) → t = thread ∧
    ∀ cpu, cpuset.isSet cpu = true ↔ Requested linux.sysconf cores cpu
  success_iff : (∃ text, report linux thread cores = some (true, text)) ↔
    (passed linux thread cores).isSome = true ∧ linux.pthreadSetaffinityNp = 0
  cause : (passed linux thread cores).isSome = true → linux.pthreadSetaffinityNp ≠ 0 →
    ∀ errno, report { linux with errno := errno } thread cores = report linux thread cores
  oneCore : ∀ core : Int32, setThreadAffinityCore linux thread core =
    setThreadAffinity linux thread (if 0 ≤ core.toInt then [core] else [])

/-- The report of a call that is made, for every `errno` that it may find. -/
theorem report_of_passed (h : (passed linux thread cores).isSome = true) (errno : Int32) :
    report { linux with errno := errno } thread cores =
      some (setAffinityResultMessage { linux with errno := errno } linux.pthreadSetaffinityNp) := by
  cases fillCpuSet_fills linux.sysconf cores with
  | refused _ cpuset hfill =>
    rw [passed_of_fill hfill] at h
    cases h
  | overflowed _ _ hfill =>
    rw [passed_of_fill hfill] at h
    cases h
  | filled _ cpuset _ hfill =>
    have hfill' : fillCpuSet ({ linux with errno := errno } : Linux).sysconf cores =
        some (true, cpuset) := hfill
    exact report_of_fill hfill'

theorem setAffinityResultMessage_of_failed {linux : Linux} {result : Int32} (h : result ≠ 0) :
    setAffinityResultMessage linux result = (false, errnoText linux.strerror linux.errno) :=
  if_neg h

/-- No report of a failed call is the same for every `errno`. -/
theorem exists_report_ne (hr : linux.pthreadSetaffinityNp ≠ 0) :
    ∃ errno, setAffinityResultMessage { linux with errno := errno } linux.pthreadSetaffinityNp ≠
      setAffinityResultMessage linux linux.pthreadSetaffinityNp := by
  by_contra hsame
  simp only [not_exists, not_not] at hsame
  have hboth := (hsame efault).trans (hsame einval).symm
  rw [setAffinityResultMessage_of_failed hr, setAffinityResultMessage_of_failed hr] at hboth
  have htext : errnoText linux.strerror efault = errnoText linux.strerror einval :=
    (Prod.mk.inj hboth).2
  rcases errnoText_eq_iff.mp htext with heq | ⟨hlisted, -⟩
  · exact absurd heq (by decide)
  · exact hlisted List.mem_cons_self

/-- **The cores asked for and the error that occurred.**  Exactly if no call is made, or one that
succeeds and asks for processors below 1024. -/
theorem appliesRequested_iff :
    AppliesRequested linux thread cores ↔
      (Available linux.sysconf cores →
        (∀ cpu, Requested linux.sysconf cores cpu → cpu < cpuSetSize) ∧
          linux.pthreadSetaffinityNp = 0) := by
  cases fillCpuSet_fills linux.sysconf cores with
  | refused h cpuset hfill =>
    refine iff_of_true ?_ fun hav => absurd hav h
    have hpassed : passed linux thread cores = none := passed_of_fill hfill
    have hreport : report linux thread cores =
        some (false, invalidCoresText linux.sysconf cores) := report_of_fill hfill
    constructor
    · simp [hpassed, h]
    · simp [hpassed]
    · simp [hpassed, hreport]
    · simp [hpassed]
    · exact setThreadAffinityCore_eq
  | overflowed h hmax hfill =>
    have hav : Available linux.sysconf cores := by
      rw [h]
      exact List.forall_mem_nil _
    have hpassed : passed linux thread cores = none := passed_of_fill hfill
    refine iff_of_false (fun happlies => ?_) fun hcond => ?_
    · have hcalled := happlies.called_iff.mpr hav
      rw [hpassed] at hcalled
      cases hcalled
    · have hlast : Requested linux.sysconf cores cpuSetSize := by
        rw [Requested, if_pos h]
        unfold cpuSetSize
        omega
      exact Nat.lt_irrefl _ ((hcond hav).1 _ hlast)
  | filled h cpuset hset hfill =>
    have hpassed : passed linux thread cores = some (thread, cpuset) := passed_of_fill hfill
    have hcalled : (passed linux thread cores).isSome = true := by rw [hpassed]; rfl
    constructor
    · refine fun happlies _ => ⟨fun cpu hcpu => ?_, ?_⟩
      · have hmask := (happlies.mask thread cpuset hpassed).2 cpu
        exact CpuSet.lt_of_isSet (hmask.mpr hcpu)
      · by_contra hr
        obtain ⟨errno, hne⟩ := exists_report_ne hr
        have hsame := happlies.cause hcalled hr errno
        rw [report_of_passed hcalled errno, report_of_passed hcalled linux.errno] at hsame
        exact hne (Option.some.inj hsame)
    · intro hcond
      obtain ⟨hlt, hr⟩ := hcond h
      have hsuccess : report linux thread cores =
          some (true, "Thread affinity set successfully!") := by
        rw [report_of_passed hcalled linux.errno, setAffinityResultMessage, if_pos hr]
      constructor
      · exact iff_of_true hcalled h
      · intro t cpuset' hp
        obtain ⟨rfl, rfl⟩ := Prod.mk.inj (Option.some.inj (hpassed.symm.trans hp))
        refine ⟨rfl, fun cpu => ?_⟩
        rw [hset cpu]
        exact and_iff_left_of_imp (hlt cpu)
      · exact iff_of_true ⟨_, hsuccess⟩ ⟨hcalled, hr⟩
      · exact fun _ hne => absurd hr hne
      · exact setThreadAffinityCore_eq

/-- A failed call is reported with its own error if `errno` happens to hold that error, or one that
is described alike. -/
theorem reports_own_error_iff (h : (passed linux thread cores).isSome = true)
    (hr : linux.pthreadSetaffinityNp ≠ 0) :
    report linux thread cores =
        report { linux with errno := linux.pthreadSetaffinityNp } thread cores ↔
      linux.errno = linux.pthreadSetaffinityNp ∨
        linux.errno ∉ listedErrors ∧ linux.pthreadSetaffinityNp ∉ listedErrors ∧
          linux.strerror linux.errno = linux.strerror linux.pthreadSetaffinityNp := by
  rw [report_of_passed h linux.errno, report_of_passed h linux.pthreadSetaffinityNp,
    setAffinityResultMessage_of_failed hr, setAffinityResultMessage_of_failed hr, Option.some_inj,
    Prod.mk.injEq, eq_self_iff_true, true_and]
  exact errnoText_eq_iff

end Attempts

/-- Four processors, and a call that is refused with `EINVAL`. -/
def refusing : Linux where
  sysconf := 4
  pthreadSetaffinityNp := einval
  errno := 0
  strerror := fun _ => "Success"

/-- 2048 processors, and a call that succeeds. -/
def manyProcessors : Linux where
  sysconf := 2048
  pthreadSetaffinityNp := 0
  errno := 0
  strerror := fun _ => "Success"

/-- An error that nothing has set is reported in place of `EINVAL`, and a thread is pinned to no
processor where core 1500 is asked for. -/
theorem affinity_misreported :
    report refusing () [0] = some (false, "Unknown error code: Success") ∧
      ¬ AppliesRequested refusing () [0] ∧
      passed manyProcessors () [1500] = some ((), .zero) ∧
      report manyProcessors () [1500] = some (true, "Thread affinity set successfully!") ∧
      ¬ AppliesRequested manyProcessors () [1500] := by
  have hreport : report refusing () [0] = some (false, "Unknown error code: Success") := by decide
  have hpassed : passed manyProcessors () [1500] = some ((), .zero) := rfl
  refine ⟨hreport, fun h => ?_, hpassed, by decide, fun h => ?_⟩
  · have hsame := h.cause (by decide) (by decide) efault
    revert hsame
    decide
  · have hset := ((h.mask () .zero hpassed).2 1500).mpr ⟨1500, List.mem_cons_self, by decide⟩
    rw [CpuSet.isSet_zero] at hset
    cases hset

end RealtimeHelpers
