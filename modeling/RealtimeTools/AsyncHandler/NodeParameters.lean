import RealtimeTools.AsyncHandler.Params

/-!
# AsyncFunctionHandlerParams::initialize

A node declares parameters with 64-bit integers, the fields are `int` and `unsigned int`.  What the
fields hold afterwards, and for which nodes that is what was declared.
-/

namespace AsyncFunctionHandler

/-- The value of a declared parameter; `other` has a type that nothing here asks for. -/
inductive ParameterValue
  | bool (value : Bool)
  | integer (value : Int64)
  | string (value : String)
  | integerArray (value : List Int64)
  | other
  deriving DecidableEq

namespace ParameterValue

def asBool : ParameterValue → Option Bool
  | .bool value => some value
  | _ => none

def asInt : ParameterValue → Option Int64
  | .integer value => some value
  | _ => none

def asString : ParameterValue → Option String
  | .string value => some value
  | _ => none

def asIntegerArray : ParameterValue → Option (List Int64)
  | .integerArray value => some value
  | _ => none

theorem asInt_eq_some_iff {value : ParameterValue} {v : Int64} :
    value.asInt = some v ↔ value = .integer v := by
  cases value <;> simp [asInt]

theorem asIntegerArray_eq_some_iff {value : ParameterValue} {vs : List Int64} :
    value.asIntegerArray = some vs ↔ value = .integerArray vs := by
  cases value <;> simp [asIntegerArray]

end ParameterValue

/-- The declared parameters. -/
abbrev Node := String → Option ParameterValue

inductive InitializeError
  /-- `get_parameter(name)` has another type than the one asked for. -/
  | parameterType (name : String)
  | runtimeError (what : String)
  deriving DecidableEq

def AsyncSchedulingPolicy.fromString (dataType : String) : AsyncSchedulingPolicy :=
  if dataType = "synchronized" then .synchronized
  else if dataType = "detached" then .detached
  else .unknown

/-- `static_cast<int>` keeps the low 32 bits; these are the integers it does not change. -/
def FitsInt (v : Int64) : Prop := -2 ^ 31 ≤ v.toInt ∧ v.toInt < 2 ^ 31

instance (v : Int64) : Decidable (FitsInt v) := inferInstanceAs (Decidable (_ ∧ _))

theorem toInt_toInt32_eq_iff {v : Int64} : v.toInt32.toInt = v.toInt ↔ FitsInt v := by
  have hrange := v.toInt32.toInt_lt
  have hrange' := v.toInt32.le_toInt
  unfold FitsInt
  constructor
  · intro h
    rw [h] at hrange hrange'
    exact ⟨hrange', hrange⟩
  · intro h
    rw [Int64.toInt_toInt32]
    exact Int.bmod_eq_of_le (by omega) (by omega)

/-- A positive `int` is the same as an `unsigned int`. -/
theorem toNat_toUInt32_of_pos {v : Int32} (h : ¬ v ≤ 0) : (v.toUInt32.toNat : Int) = v.toInt := by
  have hpos : 0 ≤ v := Int32.le_of_lt (Int32.not_le.mp h)
  have hint : 0 ≤ v.toInt := Int32.le_iff_toInt_le.mp hpos
  rw [Int32.toNat_toUInt32_of_le hpos]
  exact Int.toNat_of_nonneg hint

namespace AsyncFunctionHandlerParams

/-- `if (node->has_parameter(name)) { … node->get_parameter(name) … }`.  An exception leaves the
object as it is by then. -/
def takeOver {β : Type} (node : Node) (name : String) (as : ParameterValue → Option β)
    (store : β → AsyncFunctionHandlerParams → AsyncFunctionHandlerParams)
    (p : AsyncFunctionHandlerParams) :
    Except (InitializeError × AsyncFunctionHandlerParams) AsyncFunctionHandlerParams :=
  match node name with
  | none => .ok p
  | some value =>
      match as value with
      | some b => .ok (store b p)
      | none => .error (.parameterType name, p)

/-- The loop over the declared cores. -/
def pushCores (vs : List Int64) (cores : List Int32) : List Int32 :=
  vs.foldl (fun cores core => cores ++ [core.toInt32]) cores

def nonPositiveRateText : String :=
  "AsyncFunctionHandler: execution_rate parameter must be positive."

/-- The execution rate is asked for under the detached policy only. -/
def takeOverExecutionRate (node : Node) (pre : String) (p : AsyncFunctionHandlerParams) :
    Except (InitializeError × AsyncFunctionHandlerParams) AsyncFunctionHandlerParams :=
  if p.schedulingPolicy = .detached then
    match node (pre ++ "execution_rate") with
    | none => .ok p
    | some value =>
        match value.asInt with
        | some v =>
            if v.toInt32 ≤ 0 then .error (.runtimeError nonPositiveRateText, p)
            else .ok { p with execRate := v.toInt32.toUInt32 }
        | none => .error (.parameterType (pre ++ "execution_rate"), p)
  else .ok p

/-- `initialize(node, prefix)`. -/
def initializeFrom (node : Node) (pre : String) (p : AsyncFunctionHandlerParams) :
    Except (InitializeError × AsyncFunctionHandlerParams) AsyncFunctionHandlerParams := do
  let p ← takeOver node (pre ++ "thread_priority") ParameterValue.asInt
    (fun v p => { p with threadPriority := v.toInt32 }) p
  let p ← takeOver node (pre ++ "cpu_affinity") ParameterValue.asIntegerArray
    (fun vs p => { p with cpuAffinityCores := pushCores vs p.cpuAffinityCores }) p
  let p ← takeOver node (pre ++ "scheduling_policy") ParameterValue.asString
    (fun v p => { p with schedulingPolicy := .fromString v }) p
  let p ← takeOverExecutionRate node pre p
  let p ← takeOver node (pre ++ "wait_until_initial_trigger") ParameterValue.asBool
    (fun v p => { p with waitUntilInitialTrigger := v }) p
  let p ← takeOver node (pre ++ "print_warnings") ParameterValue.asBool
    (fun v p => { p with printWarnings := v }) p
  takeOver node (pre ++ "thread_name") ParameterValue.asString
    (fun v p => { p with threadName := v }) p

/-! ## What is left in the object -/

variable {β : Type} {node : Node} {name pre : String} {as : ParameterValue → Option β}
  {store : β → AsyncFunctionHandlerParams → AsyncFunctionHandlerParams}
  {p p' p₁ : AsyncFunctionHandlerParams}

/-- The declared value, if there is one of the type asked for. -/
def declared (node : Node) (name : String) (as : ParameterValue → Option β) : Option β :=
  (node name).bind as

theorem declared_of_none (h : node name = none) : declared node name as = none := by
  unfold declared
  rw [h]
  rfl

theorem declared_asInt_iff {v : Int64} :
    declared node name ParameterValue.asInt = some v ↔ node name = some (.integer v) := by
  unfold declared
  rw [Option.bind_eq_some_iff]
  constructor
  · rintro ⟨value, hnode, has⟩
    rw [hnode, ParameterValue.asInt_eq_some_iff.mp has]
  · exact fun h => ⟨_, h, rfl⟩

theorem declared_asIntegerArray_iff {vs : List Int64} :
    declared node name ParameterValue.asIntegerArray = some vs ↔
      node name = some (.integerArray vs) := by
  unfold declared
  rw [Option.bind_eq_some_iff]
  constructor
  · rintro ⟨value, hnode, has⟩
    rw [hnode, ParameterValue.asIntegerArray_eq_some_iff.mp has]
  · exact fun h => ⟨_, h, rfl⟩

theorem pushCores_eq (vs : List Int64) (cores : List Int32) :
    pushCores vs cores = cores ++ vs.map Int64.toInt32 := by
  unfold pushCores
  rw [List.foldl_append_eq_append]
  congr 1
  induction vs with
  | nil => rfl
  | cons v vs ih => simp [ih]

theorem takeOver_eq_ok (h : takeOver node name as store p = .ok p') :
    p' = (declared node name as).elim p (store · p) := by
  unfold takeOver at h
  unfold declared
  cases hnode : node name with
  | none =>
    simp only [hnode, Except.ok.injEq] at h
    exact h.symm
  | some value =>
    simp only [hnode] at h
    cases has : as value with
    | none =>
      rw [has] at h
      cases h
    | some b =>
      simp only [has, Except.ok.injEq] at h
      simp [has, h]

/-- A parameter that could be taken over once can be taken over again, by any object. -/
theorem takeOver_again (h : takeOver node name as store p = .ok p')
    (hstore : ∀ b, declared node name as = some b → store b p₁ = p₁) :
    takeOver node name as store p₁ = .ok p₁ := by
  unfold takeOver at h ⊢
  unfold declared at hstore
  cases hnode : node name with
  | none => rfl
  | some value =>
    simp only [hnode] at h
    cases has : as value with
    | none =>
      rw [has] at h
      cases h
    | some b => simp [has, hstore b (by rw [hnode]; exact has)]

/-- The execution rate that takes the place of `old` under the detached policy. -/
def RateFor (node : Node) (pre : String) (old new : UInt32) : Prop :=
  node (pre ++ "execution_rate") = none ∧ new = old ∨
    ∃ v, node (pre ++ "execution_rate") = some (.integer v) ∧ ¬ v.toInt32 ≤ 0 ∧
      new = v.toInt32.toUInt32

theorem takeOverExecutionRate_eq_ok (h : takeOverExecutionRate node pre p = .ok p') :
    ∃ rate, p' = { p with execRate := rate } ∧
      (p.schedulingPolicy = .detached → RateFor node pre p.execRate rate) ∧
      (p.schedulingPolicy ≠ .detached → rate = p.execRate) := by
  unfold takeOverExecutionRate at h
  by_cases hdetached : p.schedulingPolicy = .detached
  · rw [if_pos hdetached] at h
    cases hnode : node (pre ++ "execution_rate") with
    | none =>
      simp only [hnode, Except.ok.injEq] at h
      exact ⟨p.execRate, h.symm, fun _ => .inl ⟨hnode, rfl⟩, fun hne => absurd hdetached hne⟩
    | some value =>
      simp only [hnode] at h
      cases has : value.asInt with
      | none =>
        rw [has] at h
        cases h
      | some v =>
        simp only [has] at h
        split at h
        · cases h
        · rename_i hpos
          rw [ParameterValue.asInt_eq_some_iff.mp has] at hnode
          exact ⟨v.toInt32.toUInt32, (Except.ok.inj h).symm, fun _ => .inr ⟨v, hnode, hpos, rfl⟩,
            fun hne => absurd hdetached hne⟩
  · rw [if_neg hdetached] at h
    exact ⟨p.execRate, (Except.ok.inj h).symm, fun hd => absurd hd hdetached, fun _ => rfl⟩

theorem takeOverExecutionRate_again {old : UInt32}
    (h : p.schedulingPolicy = .detached → RateFor node pre old p.execRate) :
    takeOverExecutionRate node pre p = .ok p := by
  unfold takeOverExecutionRate
  by_cases hdetached : p.schedulingPolicy = .detached
  · rw [if_pos hdetached]
    obtain ⟨hnode, -⟩ | ⟨v, hnode, hpos, hrate⟩ := h hdetached
    · rw [hnode]
    · simp only [hnode, ParameterValue.asInt, if_neg hpos, ← hrate]
  · exact if_neg hdetached

/-- The object after `initialize`, field by field. -/
structure Initialized (node : Node) (pre : String) (p p' : AsyncFunctionHandlerParams) : Prop where
  threadPriority : p'.threadPriority =
    (declared node (pre ++ "thread_priority") ParameterValue.asInt).elim p.threadPriority
      Int64.toInt32
  cpuAffinityCores : p'.cpuAffinityCores = p.cpuAffinityCores ++
    (declared node (pre ++ "cpu_affinity") ParameterValue.asIntegerArray).elim []
      (List.map Int64.toInt32)
  schedulingPolicy : p'.schedulingPolicy =
    (declared node (pre ++ "scheduling_policy") ParameterValue.asString).elim p.schedulingPolicy
      .fromString
  execRate : p'.schedulingPolicy = .detached → RateFor node pre p.execRate p'.execRate
  execRate_unread : p'.schedulingPolicy ≠ .detached → p'.execRate = p.execRate
  waitUntilInitialTrigger : p'.waitUntilInitialTrigger =
    (declared node (pre ++ "wait_until_initial_trigger") ParameterValue.asBool).getD
      p.waitUntilInitialTrigger
  printWarnings : p'.printWarnings =
    (declared node (pre ++ "print_warnings") ParameterValue.asBool).getD p.printWarnings
  threadName : p'.threadName =
    (declared node (pre ++ "thread_name") ParameterValue.asString).getD p.threadName
  clock : p'.clock = p.clock
  triggerPredicate : p'.triggerPredicate = p.triggerPredicate

theorem bind_eq_ok {ε γ δ : Type} {x : Except ε γ} {f : γ → Except ε δ} {d : δ} :
    (x >>= f) = .ok d ↔ ∃ c, x = .ok c ∧ f c = .ok d := by
  cases x with
  | error e =>
    refine iff_of_false (fun h => ?_) fun ⟨_, h, _⟩ => ?_
    · cases h
    · cases h
  | ok c =>
    refine ⟨fun h => ⟨c, rfl, h⟩, fun ⟨_, h, hf⟩ => ?_⟩
    obtain rfl := Except.ok.inj h
    exact hf

theorem initialized (h : initializeFrom node pre p = .ok p') : Initialized node pre p p' := by
  unfold initializeFrom at h
  simp only [bind_eq_ok] at h
  obtain ⟨p₁, h₁, p₂, h₂, p₃, h₃, p₄, h₄, p₅, h₅, p₆, h₆, h₇⟩ := h
  obtain ⟨rate, h₄, hrate, hunread⟩ := takeOverExecutionRate_eq_ok h₄
  -- Each of the others sets one field, to what was declared or to what it was.
  have h₁ : p₁ = { p with
      threadPriority := (declared node (pre ++ "thread_priority") ParameterValue.asInt).elim
        p.threadPriority Int64.toInt32 } := by
    rw [takeOver_eq_ok h₁]
    cases declared node (pre ++ "thread_priority") ParameterValue.asInt <;> rfl
  have h₂ : p₂ = { p₁ with
      cpuAffinityCores := p₁.cpuAffinityCores ++ (declared node (pre ++ "cpu_affinity")
        ParameterValue.asIntegerArray).elim [] (List.map Int64.toInt32) } := by
    rw [takeOver_eq_ok h₂]
    cases declared node (pre ++ "cpu_affinity") ParameterValue.asIntegerArray with
    | none => simp only [Option.elim_none, List.append_nil]
    | some vs => simp only [Option.elim_some, pushCores_eq]
  have h₃ : p₃ = { p₂ with
      schedulingPolicy := (declared node (pre ++ "scheduling_policy")
        ParameterValue.asString).elim p₂.schedulingPolicy .fromString } := by
    rw [takeOver_eq_ok h₃]
    cases declared node (pre ++ "scheduling_policy") ParameterValue.asString <;> rfl
  have h₅ : p₅ = { p₄ with
      waitUntilInitialTrigger := (declared node (pre ++ "wait_until_initial_trigger")
        ParameterValue.asBool).getD p₄.waitUntilInitialTrigger } := by
    rw [takeOver_eq_ok h₅]
    cases declared node (pre ++ "wait_until_initial_trigger") ParameterValue.asBool <;> rfl
  have h₆ : p₆ = { p₅ with
      printWarnings := (declared node (pre ++ "print_warnings")
        ParameterValue.asBool).getD p₅.printWarnings } := by
    rw [takeOver_eq_ok h₆]
    cases declared node (pre ++ "print_warnings") ParameterValue.asBool <;> rfl
  have h₇ : p' = { p₆ with
      threadName := (declared node (pre ++ "thread_name")
        ParameterValue.asString).getD p₆.threadName } := by
    rw [takeOver_eq_ok h₇]
    cases declared node (pre ++ "thread_name") ParameterValue.asString <;> rfl
  subst h₇ h₆ h₅ h₄ h₃ h₂ h₁
  exact ⟨rfl, rfl, rfl, hrate, hunread, rfl, rfl, rfl, rfl, rfl⟩

/-- Where no core was appended, the same call once more leaves the object as it is. -/
theorem initializeFrom_again (h : initializeFrom node pre p = .ok p')
    (hcores : ∀ vs, node (pre ++ "cpu_affinity") = some (.integerArray vs) → vs = []) :
    initializeFrom node pre p' = .ok p' := by
  have hp' := initialized h
  unfold initializeFrom at h ⊢
  simp only [bind_eq_ok] at h ⊢
  obtain ⟨p₁, h₁, p₂, h₂, p₃, h₃, p₄, h₄, p₅, h₅, p₆, h₆, h₇⟩ := h
  refine ⟨p', takeOver_again h₁ fun v hv => ?_, p', takeOver_again h₂ fun vs hvs => ?_,
    p', takeOver_again h₃ fun v hv => ?_, p', takeOverExecutionRate_again hp'.execRate,
    p', takeOver_again h₅ fun v hv => ?_, p', takeOver_again h₆ fun v hv => ?_,
    takeOver_again h₇ fun v hv => ?_⟩
  · have hfield : p'.threadPriority = v.toInt32 := by rw [hp'.threadPriority, hv, Option.elim_some]
    rw [← hfield]
  · rw [hcores vs (declared_asIntegerArray_iff.mp hvs)]
    rfl
  · have hfield : p'.schedulingPolicy = .fromString v := by
      rw [hp'.schedulingPolicy, hv, Option.elim_some]
    rw [← hfield]
  · have hfield : p'.waitUntilInitialTrigger = v := by
      rw [hp'.waitUntilInitialTrigger, hv, Option.getD_some]
    rw [← hfield]
  · have hfield : p'.printWarnings = v := by rw [hp'.printWarnings, hv, Option.getD_some]
    rw [← hfield]
  · have hfield : p'.threadName = v := by rw [hp'.threadName, hv, Option.getD_some]
    rw [← hfield]

/-! ## What was declared -/

/-- The fields are the declared values, and those of the parameters that are not declared stay. -/
structure TakesOver (node : Node) (pre : String) (p p' : AsyncFunctionHandlerParams) : Prop where
  threadPriority : ∀ v, node (pre ++ "thread_priority") = some (.integer v) →
    p'.threadPriority.toInt = v.toInt
  cpuAffinityCores : ∀ vs, node (pre ++ "cpu_affinity") = some (.integerArray vs) →
    p'.cpuAffinityCores.map Int32.toInt = vs.map Int64.toInt
  execRate : p'.schedulingPolicy = .detached → ∀ v,
    node (pre ++ "execution_rate") = some (.integer v) → (p'.execRate.toNat : Int) = v.toInt
  threadPriority_kept : node (pre ++ "thread_priority") = none →
    p'.threadPriority = p.threadPriority
  cpuAffinityCores_kept : node (pre ++ "cpu_affinity") = none →
    p'.cpuAffinityCores = p.cpuAffinityCores
  schedulingPolicy_kept : node (pre ++ "scheduling_policy") = none →
    p'.schedulingPolicy = p.schedulingPolicy
  execRate_kept : node (pre ++ "execution_rate") = none → p'.execRate = p.execRate
  waitUntilInitialTrigger_kept : node (pre ++ "wait_until_initial_trigger") = none →
    p'.waitUntilInitialTrigger = p.waitUntilInitialTrigger
  printWarnings_kept : node (pre ++ "print_warnings") = none → p'.printWarnings = p.printWarnings
  threadName_kept : node (pre ++ "thread_name") = none → p'.threadName = p.threadName
  clock_kept : p'.clock = p.clock
  triggerPredicate_kept : p'.triggerPredicate = p.triggerPredicate

/-- The declared priority and cores are those that `validate` is there to accept. -/
structure DeclaredInRange (node : Node) (pre : String) : Prop where
  threadPriority : ∀ v, node (pre ++ "thread_priority") = some (.integer v) →
    0 ≤ v.toInt ∧ v.toInt ≤ 99
  cpuAffinityCores : ∀ vs, node (pre ++ "cpu_affinity") = some (.integerArray vs) →
    ∀ core ∈ vs, 0 ≤ core.toInt

/-- The values are taken over, the same call again changes nothing, and `validate` judges what was
declared. -/
structure Faithful (node : Node) (pre : String) (p p' : AsyncFunctionHandlerParams) : Prop where
  takesOver : TakesOver node pre p p'
  again : initializeFrom node pre p' = .ok p'
  validated : p'.validate = .valid → DeclaredInRange node pre

/-- The policy that the object will have. -/
def resultingPolicy (node : Node) (pre : String) (p : AsyncFunctionHandlerParams) :
    AsyncSchedulingPolicy :=
  (declared node (pre ++ "scheduling_policy") ParameterValue.asString).elim p.schedulingPolicy
    .fromString

/-- The declared integers fit into the fields, and there are no cores to append or to append to. -/
structure Representable (node : Node) (pre : String) (p : AsyncFunctionHandlerParams) : Prop where
  threadPriority : ∀ v, node (pre ++ "thread_priority") = some (.integer v) → FitsInt v
  cpuAffinityCores : ∀ vs, node (pre ++ "cpu_affinity") = some (.integerArray vs) →
    vs = [] ∧ p.cpuAffinityCores = []
  execRate : resultingPolicy node pre p = .detached → ∀ v,
    node (pre ++ "execution_rate") = some (.integer v) → FitsInt v

theorem priority_eq_iff (h : Initialized node pre p p') {v : Int64}
    (hv : node (pre ++ "thread_priority") = some (.integer v)) :
    p'.threadPriority.toInt = v.toInt ↔ FitsInt v := by
  rw [h.threadPriority, declared_asInt_iff.mpr hv, Option.elim_some]
  exact toInt_toInt32_eq_iff

/-- The declared cores are appended. -/
theorem cores_eq (h : Initialized node pre p p') {vs : List Int64}
    (hvs : node (pre ++ "cpu_affinity") = some (.integerArray vs)) :
    p'.cpuAffinityCores = p.cpuAffinityCores ++ vs.map Int64.toInt32 := by
  rw [h.cpuAffinityCores, declared_asIntegerArray_iff.mpr hvs, Option.elim_some]

theorem cores_eq_iff (h : Initialized node pre p p') {vs : List Int64}
    (hvs : node (pre ++ "cpu_affinity") = some (.integerArray vs)) :
    p'.cpuAffinityCores.map Int32.toInt = vs.map Int64.toInt ↔
      p.cpuAffinityCores = [] ∧ ∀ core ∈ vs, FitsInt core := by
  rw [cores_eq h hvs, List.map_append]
  constructor
  · intro heq
    have hlength := congrArg List.length heq
    simp only [List.length_append, List.length_map] at hlength
    have hnil : p.cpuAffinityCores = [] := List.length_eq_zero_iff.mp (by omega)
    rw [hnil, List.map_nil, List.nil_append, List.map_map] at heq
    exact ⟨hnil, fun core hcore => toInt_toInt32_eq_iff.mp (List.map_inj_left.mp heq core hcore)⟩
  · rintro ⟨hnil, hfits⟩
    rw [hnil, List.map_nil, List.nil_append, List.map_map]
    exact List.map_inj_left.mpr fun core hcore => toInt_toInt32_eq_iff.mpr (hfits core hcore)

theorem rate_eq_iff (h : Initialized node pre p p') (hdetached : p'.schedulingPolicy = .detached)
    {v : Int64} (hv : node (pre ++ "execution_rate") = some (.integer v)) :
    (p'.execRate.toNat : Int) = v.toInt ↔ FitsInt v := by
  obtain ⟨hnone, -⟩ | ⟨w, hw, hpos, hrate⟩ := h.execRate hdetached
  · rw [hnone] at hv
    cases hv
  · obtain rfl : w = v := by
      rw [hw] at hv
      cases hv
      rfl
    rw [hrate, toNat_toUInt32_of_pos hpos]
    exact toInt_toInt32_eq_iff

theorem execRate_kept (h : Initialized node pre p p')
    (hnone : node (pre ++ "execution_rate") = none) : p'.execRate = p.execRate := by
  by_cases hdetached : p'.schedulingPolicy = .detached
  · obtain ⟨-, hrate⟩ | ⟨v, hv, -⟩ := h.execRate hdetached
    · exact hrate
    · rw [hnone] at hv
      cases hv
  · exact h.execRate_unread hdetached

/-- What is taken over is what was declared exactly if it fits and there were no cores before. -/
theorem takesOver_iff (h : Initialized node pre p p') :
    TakesOver node pre p p' ↔
      (∀ v, node (pre ++ "thread_priority") = some (.integer v) → FitsInt v) ∧
      (∀ vs, node (pre ++ "cpu_affinity") = some (.integerArray vs) →
        p.cpuAffinityCores = [] ∧ ∀ core ∈ vs, FitsInt core) ∧
      (resultingPolicy node pre p = .detached → ∀ v,
        node (pre ++ "execution_rate") = some (.integer v) → FitsInt v) := by
  have hpolicy : p'.schedulingPolicy = resultingPolicy node pre p := h.schedulingPolicy
  constructor
  · intro htakes
    refine ⟨fun v hv => (priority_eq_iff h hv).mp (htakes.threadPriority v hv),
      fun vs hvs => (cores_eq_iff h hvs).mp (htakes.cpuAffinityCores vs hvs),
      fun hdetached v hv => ?_⟩
    have hdetached : p'.schedulingPolicy = .detached := hpolicy.trans hdetached
    exact (rate_eq_iff h hdetached hv).mp (htakes.execRate hdetached v hv)
  · rintro ⟨hpriority, hcores, hrate⟩
    exact {
      threadPriority := fun v hv => (priority_eq_iff h hv).mpr (hpriority v hv)
      cpuAffinityCores := fun vs hvs => (cores_eq_iff h hvs).mpr (hcores vs hvs)
      execRate := fun hdetached v hv =>
        (rate_eq_iff h hdetached hv).mpr (hrate (hpolicy.symm.trans hdetached) v hv)
      threadPriority_kept := fun hnone => by
        rw [h.threadPriority, declared_of_none hnone, Option.elim_none]
      cpuAffinityCores_kept := fun hnone => by
        rw [h.cpuAffinityCores, declared_of_none hnone, Option.elim_none, List.append_nil]
      schedulingPolicy_kept := fun hnone => by
        rw [h.schedulingPolicy, declared_of_none hnone, Option.elim_none]
      execRate_kept := execRate_kept h
      waitUntilInitialTrigger_kept := fun hnone => by
        rw [h.waitUntilInitialTrigger, declared_of_none hnone, Option.getD_none]
      printWarnings_kept := fun hnone => by
        rw [h.printWarnings, declared_of_none hnone, Option.getD_none]
      threadName_kept := fun hnone => by
        rw [h.threadName, declared_of_none hnone, Option.getD_none]
      clock_kept := h.clock
      triggerPredicate_kept := h.triggerPredicate }

/-- The same call changes nothing the second time exactly if it appends no core. -/
theorem again_iff (h : initializeFrom node pre p = .ok p') :
    initializeFrom node pre p' = .ok p' ↔
      ∀ vs, node (pre ++ "cpu_affinity") = some (.integerArray vs) → vs = [] := by
  refine ⟨fun hagain vs hvs => ?_, initializeFrom_again h⟩
  have hcores := congrArg List.length (cores_eq (initialized hagain) hvs)
  simp only [List.length_append, List.length_map] at hcores
  exact List.length_eq_zero_iff.mp (by omega)

/-- What was taken over as declared is validated as declared. -/
theorem declaredInRange (h : TakesOver node pre p p') (hvalid : p'.validate = .valid) :
    DeclaredInRange node pre := by
  obtain ⟨hpriority, -, -, -, hcores⟩ := validate_eq_valid_iff.mp hvalid
  constructor
  · intro v hv
    rw [← h.threadPriority v hv]
    have hlow : ¬ p'.threadPriority.toInt < 0 := fun hlt =>
      hpriority (.inl (Int32.lt_iff_toInt_lt.mpr hlt))
    have hhigh : ¬ 99 < p'.threadPriority.toInt := fun hlt =>
      hpriority (.inr (Int32.lt_iff_toInt_lt.mpr hlt))
    exact ⟨Int.not_lt.mp hlow, Int.not_lt.mp hhigh⟩
  · intro vs hvs core hcore
    have hmem : core.toInt ∈ p'.cpuAffinityCores.map Int32.toInt := by
      rw [h.cpuAffinityCores vs hvs]
      exact List.mem_map_of_mem hcore
    obtain ⟨core', hcore', heq⟩ := List.mem_map.mp hmem
    rw [← heq]
    exact Int.not_lt.mp fun hlt => hcores core' hcore' (Int32.lt_iff_toInt_lt.mpr hlt)

/-- **What the fields hold is what the node declares.**  Exactly for integers that an `int` holds and
if no core is appended or found in the object. -/
theorem faithful_iff (h : initializeFrom node pre p = .ok p') :
    Faithful node pre p p' ↔ Representable node pre p := by
  have htakes := takesOver_iff (initialized h)
  constructor
  · intro hfaithful
    obtain ⟨hpriority, hcores, hrate⟩ := htakes.mp hfaithful.takesOver
    exact ⟨hpriority, fun vs hvs => ⟨(again_iff h).mp hfaithful.again vs hvs, (hcores vs hvs).1⟩,
      hrate⟩
  · rintro ⟨hpriority, hcores, hrate⟩
    have htaken : TakesOver node pre p p' := by
      refine htakes.mpr ⟨hpriority, fun vs hvs => ⟨(hcores vs hvs).2, fun core hcore => ?_⟩, hrate⟩
      rw [(hcores vs hvs).1] at hcore
      cases hcore
    exact ⟨htaken, (again_iff h).mpr fun vs hvs => (hcores vs hvs).1, declaredInRange htaken⟩

/-- A node for the detached policy. -/
def detachedNode : Node := fun name =>
  if name = "scheduling_policy" then some (.string "detached")
  else if name = "execution_rate" then some (.integer 500)
  else if name = "thread_priority" then some (.integer 60)
  else none

theorem faithful_detachedNode :
    Faithful detachedNode "" {}
      { threadPriority := 60, schedulingPolicy := .detached, execRate := 500 } := by
  refine (faithful_iff (by decide)).mpr ⟨fun v hv => ?_, fun vs hvs => ?_, fun _ v hv => ?_⟩
  · obtain rfl : v = 60 := by simpa [detachedNode, eq_comm] using hv
    decide
  · simp [detachedNode] at hvs
  · obtain rfl : v = 500 := by simpa [detachedNode, eq_comm] using hv
    decide

/-- A node with the priority `2 ^ 32 + 50`. -/
def largePriority : Node := fun name =>
  if name = "thread_priority" then some (.integer (2 ^ 32 + 50)) else none

/-- Its priority is taken for 50 and accepted. -/
theorem largePriority_validated :
    initializeFrom largePriority "" {} = .ok {} ∧
      ({} : AsyncFunctionHandlerParams).validate = .valid ∧
      ¬ Faithful largePriority "" {} {} := by
  have hvalid : ({} : AsyncFunctionHandlerParams).validate = .valid := default_valid
  refine ⟨by decide, hvalid, fun h => ?_⟩
  have hrange := ((h.validated hvalid).threadPriority (2 ^ 32 + 50) (by decide)).2
  revert hrange
  decide

end AsyncFunctionHandlerParams
end AsyncFunctionHandler
