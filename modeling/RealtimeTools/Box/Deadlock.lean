import RealtimeTools.Box.Linearization
import RealtimeTools.Interleaving.WaitFor

/-!
# Assignments that wait for each other

An assignment takes the lock of its source and then the lock of its target, and is the only call that
waits while it owns a lock.  So a deadlock is a cycle of assignments; it can come about only if an
assignment begins while others, not yet in possession of their targets, lead from its target back to
its source.
-/

open Interleaving

namespace RealtimeThreadSafeBox

variable {κ β ι W : Type}

/-- The box whose lock a blocking `lock` waits for. -/
def ClientPc.waits : ClientPc β ι W → Option β
  | .access b false _ .lock => some b
  | .assign _ source _ .lockSource => some source
  | .assign target _ _ .lockTarget => some target
  | _ => none

/-- The boxes whose locks a call owns. -/
def Stage.Holds (b : β) : Stage β ι W → Prop
  | .inside c _ _ | .running c _ _ | .stored c _ _ | .ownsSource _ c _ => b = c
  | .ownsBoth target source _ => b = target ∨ b = source
  | .idle | .wants _ | .done _ => False

/-- An assignment from one box to another that does not own its target's lock yet. -/
def Stage.Assigns (source target : β) : Stage β ι W → Prop
  | .wants (.assign t s _) => s = source ∧ t = target ∧ s ≠ t
  | .ownsSource t s _ => s = source ∧ t = target
  | _ => False

/-- Somebody is in such an assignment. -/
def Assigning (s : State κ β ι W) [DecidableEq β] (source target : β) : Prop :=
  ∃ k, (s.client k).stage.Assigns source target

/-- An assignment is called only if no chain of assignments that do not own their targets yet leads
from its target back to its source. -/
def NoWayBack [DecidableEq β] (s : State κ β ι W) (k : κ) (o : Oracle β ι W) : Prop :=
  s.client k = .idle → ∀ target source moving, o.call = .assign target source moving →
    source ≠ target → ¬ Relation.ReflTransGen (Assigning s) target source

variable [DecidableEq κ] [DecidableEq β] [DecidableEq ι]
variable {init : β → ι → W} {s s' : State κ β ι W} {k : κ} {o : Oracle β ι W}

/-! ## Who owns what -/

/-- Every thread owns the locks its stage says. -/
def OwnsByStage (s : State κ β ι W) : Prop :=
  ∀ k b, s.lock b = some k ↔ (s.client k).stage.Holds b

omit [DecidableEq κ] [DecidableEq ι] in
theorem Stage.Next.holds {stage stage' : Stage β ι W} {e : Event κ β ι W} {b : β} {m : Mutex κ}
    (h : stage.Next k e stage') (hold : m = some k ↔ stage.Holds b) :
    e.locks b m = some k ↔ stage'.Holds b := by
  cases h <;> simp only [Event.locks, Stage.Holds] at hold ⊢
  all_goals grind

theorem Step.ownsByStage (h : Step init k s s') (hJ : Shared init s) (hown : OwnsByStage s) :
    OwnsByStage s' := by
  intro j b
  by_cases hjk : j = k
  · subst hjk
    rcases h.event with ⟨_, hlock, hstage⟩ | ⟨e, _, hnext, _, hlock⟩
    · rw [hlock, hstage]
      exact hown j b
    · rw [hlock]
      exact hnext.holds (hown j b)
  · rw [h.others j hjk, (h.mutex hJ b).owner_iff hjk]
    exact hown j b

/-! ## Who assigns -/

omit [DecidableEq κ] [DecidableEq β] [DecidableEq ι] in
/-- A call goes on with the assignment it is in. -/
theorem Stage.Next.assigns {stage stage' : Stage β ι W} {e : Event κ β ι W} {source target : β}
    (h : stage.Next k e stage') (hidle : stage ≠ .idle) (hassigns : stage'.Assigns source target) :
    stage.Assigns source target := by
  cases h with
  | call call => exact absurd rfl hidle
  | acquireSource t s moving hne => exact ⟨hassigns.1, hassigns.2, hne⟩
  | _ => cases hassigns

omit [DecidableEq κ] [DecidableEq ι] in
theorem stage_eq_idle {pc : ClientPc β ι W} : pc.stage = .idle ↔ pc = .idle := by
  constructor
  · intro h
    cases pc with
    | idle => rfl
    | access b tries a pc => cases pc <;> cases a <;> cases h
    | assign target source moving pc =>
      cases pc with
      | finish =>
        simp only [ClientPc.stage] at h
        split at h <;> cases h
      | _ => cases h
  · rintro rfl
    rfl

/-- A step leaves the other assignments, and the one of the thread that steps unless it begins. -/
theorem Step.assigning (h : Step init k s s') (hbusy : s.client k ≠ .idle) {source target : β}
    (hassigning : Assigning s' source target) : Assigning s source target := by
  obtain ⟨j, hj⟩ := hassigning
  refine ⟨j, ?_⟩
  by_cases hjk : j = k
  · subst hjk
    rcases h.event with ⟨_, _, hstage⟩ | ⟨e, _, hnext, _, _⟩
    · rwa [← hstage]
    · exact hnext.assigns (fun hidle => hbusy (stage_eq_idle.mp hidle)) hj
  · rwa [h.others j hjk] at hj

omit [DecidableEq ι] in
/-- A call adds at most its own assignment. -/
theorem assigning_call {call : Call β ι W} {source target : β}
    (h : Assigning ((s.goto k call.entry).record (.called k call)) source target) :
    Assigning s source target ∨ source ≠ target ∧ ∃ moving, call = .assign target source moving := by
  obtain ⟨j, hj⟩ := h
  rw [State.client_record, State.client_goto] at hj
  by_cases hjk : j = k
  · subst hjk
    rw [Function.update_self] at hj
    cases call with
    | access b tries a => cases hj
    | assign t s moving =>
      obtain ⟨rfl, rfl, hne⟩ := hj
      exact .inr ⟨hne, moving, rfl⟩
  · rw [Function.update_of_ne hjk] at hj
    exact .inl ⟨j, hj⟩

/-! ## No circular wait -/

omit [DecidableEq κ] [DecidableEq ι] in
/-- A thread that owns a lock and waits for another one is in an assignment between these boxes. -/
theorem assigning_of_lockEdge (hown : OwnsByStage s) {source target : β}
    (h : LockEdge (fun k => (s.client k).waits) s.lock source target) :
    Assigning s source target := by
  obtain ⟨k, hlock, hwaits⟩ := h
  have hholds := (hown k source).mp hlock
  refine ⟨k, ?_⟩
  dsimp only at hwaits
  cases hpc : s.client k with
  | idle => rw [hpc] at hwaits; cases hwaits
  | access b tries a pc =>
    rw [hpc] at hwaits hholds
    cases tries <;> cases pc <;> first | exact hholds.elim | cases hwaits
  | assign t r moving pc =>
    rw [hpc] at hwaits hholds
    cases pc with
    | lockTarget =>
      obtain rfl : t = target := by simpa [ClientPc.waits] using hwaits
      obtain rfl : source = r := hholds
      exact ⟨rfl, rfl⟩
    | lockSource => cases hholds
    | _ => cases hwaits

variable [Inhabited W] [Fintype ι]

theorem reachable_acyclic (h : Reachable (boxes κ init) NoWayBack s) :
    OwnsByStage s ∧ Acyclic (Assigning s) := by
  refine h.invariant (I := fun s => OwnsByStage s ∧ Acyclic (Assigning s)) ?_ ?_
  · rintro s rfl
    exact ⟨fun k b => by simp [initial, ClientPc.stage, Stage.Holds],
      acyclic_empty fun x y ⟨_, hxy⟩ => hxy⟩
  · rintro s k o s' hr ⟨hown, hacyclic⟩ hp hs
    obtain ⟨hat, hJ⟩ := reachable_at (hr.mono fun _ _ _ _ => trivial)
    have hs : step k o s = some s' := hs
    have hstep := (step_sound hJ (hat k) hs).step
    refine ⟨hstep.ownsByStage hJ hown, ?_⟩
    by_cases hidle : s.client k = .idle
    · simp only [step, hidle] at hs
      obtain rfl := Option.some.inj hs
      by_cases hcall : ∃ target source moving, o.call = .assign target source moving ∧
          source ≠ target
      · obtain ⟨target, source, moving, hcall, hne⟩ := hcall
        refine hacyclic.insert (hp hidle target source moving hcall hne) fun x y hxy => ?_
        refine (assigning_call hxy).imp id ?_
        rintro ⟨_, _, hcall'⟩
        obtain ⟨rfl, rfl, _⟩ : target = y ∧ source = x ∧ _ := by simpa [hcall] using hcall'
        exact ⟨rfl, rfl⟩
      · refine hacyclic.mono fun x y hxy => (assigning_call hxy).resolve_right ?_
        rintro ⟨hne, moving, hcall'⟩
        exact hcall ⟨y, x, moving, hcall', hne⟩
    · exact hacyclic.mono fun x y hxy => hstep.assigning hidle hxy

/-- **No deadlock of assignments.**  In every run in which no assignment is called while others, not
yet in possession of their targets, lead from its target back to its source, there is never a cycle
of threads each of which waits for a lock that the next one owns. -/
theorem no_circular_wait (h : Reachable (boxes κ init) NoWayBack s) :
    ¬ CircularWait (fun k => (s.client k).waits) s.lock := by
  obtain ⟨hown, hacyclic⟩ := reachable_acyclic h
  exact not_circularWait (hacyclic.mono fun x y hxy => assigning_of_lockEdge hown hxy)

/-! ## One assignment at a time -/

section OneAtATime

omit [DecidableEq κ] [DecidableEq β] [DecidableEq ι] [Inhabited W] [Fintype ι]

def ClientPc.assigning : ClientPc β ι W → Bool
  | .assign _ _ _ _ => true
  | _ => false

def ClientPc.isIdle : ClientPc β ι W → Bool
  | .idle => true
  | _ => false

def Call.isAssign : Call β ι W → Bool
  | .assign _ _ _ => true
  | .access _ _ _ => false

/-- An assignment is called only while nobody is in one. -/
def OneAtATime (s : State κ β ι W) (k : κ) (o : Oracle β ι W) : Prop :=
  ((s.client k).isIdle && o.call.isAssign) = true → ∀ j, (s.client j).assigning = false

instance [Fintype κ] (s : State κ β ι W) (k : κ) (o : Oracle β ι W) :
    Decidable (OneAtATime s k o) :=
  inferInstanceAs (Decidable (_ → _))

/-- Then nothing leads back. -/
theorem OneAtATime.noWayBack [DecidableEq β] (h : OneAtATime s k o) : NoWayBack s k o := by
  intro hidle target source moving hcall hne hback
  have hnobody := h (by rw [hidle, hcall]; rfl)
  rcases Relation.ReflTransGen.cases_head hback with hsame | ⟨b, ⟨j, hj⟩, _⟩
  · exact hne hsame.symm
  · have hpc := hnobody j
    cases hc : s.client j with
    | idle => rw [hc] at hj; cases hj
    | access c tries a pc =>
      rw [hc] at hj
      cases pc <;> cases a <;> cases hj
    | assign t r m pc => rw [hc] at hpc; cases hpc

end OneAtATime

/-- Thread `true` takes both locks for an assignment; thread `false` waits for one of them. -/
def assignedWhileRead : List (Bool × Oracle Bool Bool Nat) :=
  List.replicate 4 (true, { call := copyAssign false true, content := 0 }) ++
    [(false, { call := get true, content := 0 })]

theorem no_circular_wait_assignedWhileRead :
    ∃ s : State Bool Bool Bool Nat, Reachable (boxes Bool fun _ _ => 0) NoWayBack s ∧
      WaitsFor (fun k => (s.client k).waits) s.lock false true ∧
      ¬ CircularWait (fun k => (s.client k).waits) s.lock := by
  obtain ⟨s, hs, hp⟩ := exists_reachable_of_exec (boxes Bool fun (_ _ : Bool) => 0) OneAtATime
    assignedWhileRead (initial fun _ _ => 0)
    (fun s => (s.client false).waits = some true ∧ s.lock true = some true) rfl (by decide)
  obtain ⟨hwaits, hlock⟩ : (s.client false).waits = some true ∧ s.lock true = some true := by
    simpa using hp
  have hs' := hs.mono (fun _ _ _ => OneAtATime.noWayBack)
  exact ⟨s, hs', ⟨true, hwaits, hlock⟩, no_circular_wait hs'⟩

/-- Opposite assignments, each of which has the lock of its source. -/
def oppositeAssignments : List (Bool × Oracle Bool Bool Nat) :=
  List.replicate 3 (true, { call := copyAssign false true, content := 0 }) ++
    List.replicate 3 (false, { call := copyAssign true false, content := 0 })

theorem circular_wait :
    ∃ s : State Bool Bool Bool Nat, Reachable (boxes Bool fun _ _ => 0) anyStep s ∧
      CircularWait (fun k => (s.client k).waits) s.lock := by
  obtain ⟨s, hs, hp⟩ := exists_reachable_of_exec (boxes Bool fun (_ _ : Bool) => 0) anyStep
    oppositeAssignments (initial fun _ _ => 0)
    (fun s => (s.client true).waits = some false ∧ s.lock false = some false ∧
      (s.client false).waits = some true ∧ s.lock true = some true) rfl (by decide)
  obtain ⟨hwaits, hlock, hwaits', hlock'⟩ : (s.client true).waits = some false ∧
      s.lock false = some false ∧ (s.client false).waits = some true ∧
      s.lock true = some true := by
    simpa using hp
  exact ⟨s, hs, true, .tail (.single ⟨false, hwaits, hlock⟩) ⟨true, hwaits', hlock'⟩⟩

end RealtimeThreadSafeBox
