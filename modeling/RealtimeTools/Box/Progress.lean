import Mathlib.Algebra.Order.BigOperators.Group.Finset
import Mathlib.Data.Fintype.EquivFin
import RealtimeTools.Box.Deadlock
import RealtimeTools.Interleaving.DataRace
import RealtimeTools.Interleaving.WaitFree

/-!
# Calls that come to an end

Without a circular wait nobody is stuck: whoever waits for a lock waits, over some others, for a thread
that can move, and all the calls under way can be brought to their end.  The words of a box are touched
by the owner of its mutex only.
-/

open Interleaving

namespace RealtimeThreadSafeBox

variable {κ β ι W : Type}

/-! ## Steps that are left -/

section Left

variable [Fintype ι]

/-- The steps of a call until it returns, at best. -/
@[simp] def AccessPc.left : AccessPc ι W → ℕ
  | .lock => Fintype.card ι + 5
  | .copy copied _ => Fintype.card ι - copied.card + 3
  | .invoke => 4
  | .callback => 3
  | .unlock _ => 2
  | .finish _ => 1

@[simp] def AssignPc.left : AssignPc ι W → ℕ
  | .testSelf => Fintype.card ι + 7
  | .lockSource => Fintype.card ι + 6
  | .lockTarget => Fintype.card ι + 5
  | .copy copied => Fintype.card ι - copied.card + 4
  | .unlockTarget => 3
  | .unlockSource _ => 2
  | .finish => 1

@[simp] def ClientPc.left : ClientPc β ι W → ℕ
  | .idle => 0
  | .access _ _ _ pc => pc.left
  | .assign _ _ _ pc => pc.left

theorem left_eq_zero_iff {pc : ClientPc β ι W} : pc.left = 0 ↔ pc = .idle := by
  cases pc with
  | idle => simp
  | access b tries a pc => cases pc <;> simp
  | assign target source moving pc => cases pc <;> simp

end Left

variable [DecidableEq κ] [DecidableEq β] [DecidableEq ι] [Inhabited W] [Fintype ι]
variable {init : β → ι → W} {s s' : State κ β ι W} {k : κ}

/-! ## Moving on -/

/-- A word that is still to be copied. -/
theorem exists_word (copied : Finset ι) (hne : copied ≠ Finset.univ) :
    ∃ i, Fintype.card ι - (insert i copied).card < Fintype.card ι - copied.card := by
  obtain ⟨i, hi⟩ : ∃ i, i ∉ copied := by
    by_contra hall
    push Not at hall
    exact hne (Finset.eq_univ_iff_forall.mpr hall)
  have hlt : copied.card < Fintype.card ι := (Finset.card_lt_iff_ne_univ copied).mpr hne
  refine ⟨i, ?_⟩
  rw [Finset.card_insert_of_notMem hi]
  omega

theorem accessStep_moves {b : β} {tries : Bool} {a : Access ι W} {pc : AccessPc ι W}
    (hfree : pc = .lock → tries = false → s.lock b = none) :
    ∃ o s', accessStep s k o b tries a pc = some s' ∧ (s'.client k).left < pc.left := by
  cases pc with
  | lock =>
    by_cases hlock : s.lock b = none
    · refine ⟨{ call := get b, content := default }, _, if_pos ⟨hlock, by simp⟩, ?_⟩
      cases a <;> simp [Access.body]
    · have htries : tries = true := by
        by_contra hblocking
        exact hlock (hfree rfl (by simpa using hblocking))
      refine ⟨{ call := get b, content := default },
        (s.goto k .idle).record (.returned k a.failed), ?_, ?_⟩
      · simp [accessStep, hlock, htries]
      · simp
  | copy copied out =>
    by_cases hdone : copied = Finset.univ
    · exact ⟨{ call := get b, content := default }, _, if_pos hdone, by simp⟩
    · obtain ⟨i, hi⟩ := exists_word copied hdone
      exact ⟨{ call := get b, word := some i, content := default }, _, rfl, by simpa using hi⟩
  | invoke | callback | unlock | finish =>
    exact ⟨{ call := get b, content := default }, _, rfl, by simp⟩

theorem assignStep_moves {target source : β} {moving : Bool} {pc : AssignPc ι W}
    (hsource : pc = .lockSource → s.lock source = none)
    (htarget : pc = .lockTarget → s.lock target = none) :
    ∃ o s', assignStep s k o target source moving pc = some s' ∧ (s'.client k).left < pc.left := by
  cases pc with
  | testSelf =>
    refine ⟨{ call := get source, content := default }, _, rfl, ?_⟩
    simp only [State.client_goto, Function.update_self, ClientPc.left]
    split <;> simp
  | lockSource => exact ⟨{ call := get source, content := default }, _, if_pos (hsource rfl), by simp⟩
  | lockTarget => exact ⟨{ call := get source, content := default }, _, if_pos (htarget rfl), by simp⟩
  | copy copied =>
    by_cases hdone : copied = Finset.univ
    · exact ⟨{ call := get source, content := default }, _, if_pos hdone, by simp⟩
    · obtain ⟨i, hi⟩ := exists_word copied hdone
      exact ⟨{ call := get source, word := some i, content := default }, _, rfl, by simpa using hi⟩
  | unlockTarget | unlockSource | finish =>
    exact ⟨{ call := get source, content := default }, _, rfl, by simp⟩

/-- A thread in a call that waits for nobody can come nearer its end. -/
theorem step_moves (hbusy : s.client k ≠ .idle)
    (hfree : ∀ b, (s.client k).waits = some b → s.lock b = none) :
    ∃ o s', step k o s = some s' ∧ (s'.client k).left < (s.client k).left := by
  unfold step
  cases hpc : s.client k with
  | idle => exact absurd hpc hbusy
  | access b tries a pc =>
    refine accessStep_moves fun hlock htries => hfree b ?_
    rw [hpc, hlock, htries]
    rfl
  | assign target source moving pc =>
    refine assignStep_moves (fun hlock => hfree source ?_) fun hlock => hfree target ?_
    · rw [hpc, hlock]
      rfl
    · rw [hpc, hlock]
      rfl

/-! ## Calls under way -/

/-- Only threads in a call make a step, so no new call is made. -/
def InCall (s : State κ β ι W) (k : κ) (_ : Oracle β ι W) : Prop := s.client k ≠ .idle

omit [DecidableEq κ] [DecidableEq ι] [Inhabited W] [Fintype ι] in
/-- The owner of a lock is in a call. -/
theorem busy_of_owner (hown : OwnsByStage s) {b : β} (hlock : s.lock b = some k) :
    s.client k ≠ .idle := by
  intro hidle
  have hholds := (hown k b).mp hlock
  rw [hidle] at hholds
  exact hholds

omit [DecidableEq κ] [DecidableEq ι] [Inhabited W] [Fintype ι] in
/-- A chain of waiting threads stays among the threads in a call. -/
theorem busy_of_chain (hown : OwnsByStage s) {j : κ} (hbusy : s.client k ≠ .idle)
    (h : Relation.ReflTransGen (WaitsFor (fun k => (s.client k).waits) s.lock) k j) :
    s.client j ≠ .idle := by
  rcases Relation.ReflTransGen.cases_tail h with rfl | ⟨_, _, b, _, hlock⟩
  · exact hbusy
  · exact busy_of_owner hown hlock

/-- A thread in a call waits over some others, or none, for one that can come nearer its end. -/
theorem chain_moves [Finite κ] (hown : OwnsByStage s) (hacyclic : Acyclic (Assigning s))
    (hbusy : s.client k ≠ .idle) :
    ∃ j, Relation.ReflTransGen (WaitsFor (fun k => (s.client k).waits) s.lock) k j ∧
      s.client j ≠ .idle ∧ ∃ o s', step j o s = some s' ∧ (s'.client j).left < (s.client j).left := by
  obtain ⟨j, hchain, hend⟩ := exists_chain_end
    (not_circularWait (hacyclic.mono fun x y hxy => assigning_of_lockEdge hown hxy)) k
  have hj := busy_of_chain hown hbusy hchain
  refine ⟨j, hchain, hj, step_moves hj fun b hwaits => ?_⟩
  by_contra hheld
  obtain ⟨u, hu⟩ := Option.ne_none_iff_exists'.mp hheld
  exact hend u ⟨b, hwaits, hu⟩

omit [DecidableEq β] [DecidableEq ι] [Inhabited W] in
theorem sum_left_lt [Fintype κ] {j : κ} (hothers : ∀ k, k ≠ j → s'.client k = s.client k)
    (hlt : (s'.client j).left < (s.client j).left) :
    ∑ k, (s'.client k).left < ∑ k, (s.client k).left := by
  refine Finset.sum_lt_sum (fun k _ => ?_) ⟨j, Finset.mem_univ j, hlt⟩
  by_cases hk : k = j
  · rw [hk]
    exact hlt.le
  · rw [hothers k hk]

/-- **Every call can return.**  In every run of finitely many threads in which no assignment is called
while others lead from its target back to its source: a thread in a call waits, over some others or
none, for one that can move, and the run can go on, without new calls, to where nobody is in a call. -/
theorem calls_can_return [Fintype κ] (h : Reachable (boxes κ init) NoWayBack s) :
    (∀ k, s.client k ≠ .idle → ∃ j,
        Relation.ReflTransGen (WaitsFor (fun k => (s.client k).waits) s.lock) k j ∧
          ∃ o s', step j o s = some s') ∧
      ∃ movers s', Proceeds (boxes κ init) InCall s movers s' ∧ ∀ k, s'.client k = .idle := by
  constructor
  · intro k hbusy
    obtain ⟨hown, hacyclic⟩ := reachable_acyclic h
    obtain ⟨j, hchain, _, o, s', hs, _⟩ := chain_moves hown hacyclic hbusy
    exact ⟨j, hchain, o, s', hs⟩
  · have hdrain : ∃ movers s', Proceeds (boxes κ init) InCall s movers s' ∧
        Reachable (boxes κ init) NoWayBack s' ∧ ∑ k, (s'.client k).left = 0 := by
      refine Proceeds.exists_rank_zero (fun s => ∑ k, (s.client k).left) h fun s hr hpos => ?_
      obtain ⟨hown, hacyclic⟩ := reachable_acyclic hr
      obtain ⟨k, _, hk⟩ := Finset.exists_ne_zero_of_sum_ne_zero (Nat.ne_of_gt hpos)
      have hbusy : s.client k ≠ .idle := fun hidle => hk (left_eq_zero_iff.mpr hidle)
      obtain ⟨j, _, hj, o, s', hs, hlt⟩ := chain_moves hown hacyclic hbusy
      obtain ⟨hat, hJ⟩ := reachable_at (hr.mono fun _ _ _ _ => trivial)
      -- A thread in a call does not begin an assignment.
      refine ⟨j, o, s', hj, hs, hr.step (fun hidle => absurd hidle hj) hs, ?_⟩
      exact sum_left_lt (step_sound hJ (hat j) hs).step.others hlt
    obtain ⟨movers, s', hproceeds, _, hzero⟩ := hdrain
    refine ⟨movers, s', hproceeds, fun k => left_eq_zero_iff.mp ?_⟩
    exact Finset.sum_eq_zero_iff.mp hzero k (Finset.mem_univ k)

/-- A reader that waits for an assignment, which still has to copy everything. -/
theorem calls_can_return_assignedWhileRead :
    ∃ s : State Bool Bool Bool Nat, Reachable (boxes Bool fun _ _ => 0) NoWayBack s ∧
      WaitsFor (fun k => (s.client k).waits) s.lock false true ∧
      ∃ movers s', Proceeds (boxes Bool fun _ _ => 0) InCall s movers s' ∧
        ∀ k, s'.client k = .idle := by
  obtain ⟨s, hs, hp⟩ := exists_reachable_of_exec (boxes Bool fun (_ _ : Bool) => 0) OneAtATime
    assignedWhileRead (initial fun _ _ => 0)
    (fun s => (s.client false).waits = some true ∧ s.lock true = some true) rfl (by decide)
  obtain ⟨hwaits, hlock⟩ : (s.client false).waits = some true ∧ s.lock true = some true := by
    simpa using hp
  have hs' := hs.mono (fun _ _ _ => OneAtATime.noWayBack)
  exact ⟨s, hs', ⟨true, hwaits, hlock⟩, (calls_can_return hs').2⟩

/-! ## The words -/

/-- The access changes the value of the box. -/
def Access.writes : Access ι W → Bool
  | .store _ | .modify | .moveOut => true
  | .load | .inspect => false

/-- What the next step of a thread does to a word of a box. -/
def accessWord (k : κ) (s : State κ β ι W) (word : β × ι) : Option Interleaving.Access :=
  match s.client k with
  | .access b _ a (.copy _ _) | .access b _ a .callback =>
      if word.1 = b then some (if a.writes then .write else .read) else none
  | .assign target source moving (.copy _) =>
      if word.1 = target then some .write
      else if word.1 = source then some (if moving then .write else .read)
      else none
  | _ => none

omit [Inhabited W] [Fintype ι] in
theorem owner_of_accessWord {word : β × ι} (hat : At init k s) (h : (accessWord k s word).isSome) :
    s.lock word.1 = some k := by
  have hat : PcAt init k s (s.client k) := hat
  unfold accessWord at h
  split at h <;> rename_i hpc <;> try cases h
  · split at h
    · rename_i hb
      rw [hpc] at hat
      rw [hb]
      exact hat.1
    · cases h
  · split at h
    · rename_i hb
      rw [hpc] at hat
      rw [hb]
      exact hat.1
    · cases h
  · rw [hpc] at hat
    obtain ⟨_, hsource, htarget, _⟩ := hat
    split at h
    · rename_i hb
      rw [hb]
      exact htarget
    · split at h
      · rename_i hb
        rw [hb]
        exact hsource
      · cases h

/-- **No data race.**  Copies, assignments and callbacks touch the words of a box as the owner of its
mutex only. -/
theorem box_raceFree (word : β × ι) : RaceFree (boxes κ init) anyStep accessWord word := by
  intro s hr
  exact not_race_of_owner (s.lock word.1) fun k hk => owner_of_accessWord ((reachable_at hr).1 k) hk

end RealtimeThreadSafeBox
