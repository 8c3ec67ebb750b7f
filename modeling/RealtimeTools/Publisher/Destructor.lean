import Mathlib.Data.Fintype.Basic
import RealtimeTools.Publisher.Realtime
import RealtimeTools.Publisher.Wakeup

/-!
# The destructor

`~RealtimePublisher` stops the loop, polls `is_running_` until the loop has ended, and joins the thread.
As for every object, nobody may be in a call when it begins, and nobody may call later.  `is_running_` is
false before the loop starts as well; the poll is right because the constructor has waited for `turn_`.
-/

open Interleaving

namespace RealtimePublisher

/-- Program points of `~RealtimePublisher`. -/
inductive DestructorPc
  | notCalled
  | stop
  | poll
  | join
  | done
  deriving DecidableEq

/-- A publisher and how far its destruction has come. -/
structure Lifetime (κ Msg : Type) where
  publisher : State κ Msg
  destructor : DestructorPc

structure LifetimeOracle (κ Msg : Type) extends Oracle κ Msg where
  destroy : Bool := false

variable {κ Msg : Type}

def ClientPc.isIdle : ClientPc Msg → Bool
  | .idle => true
  | _ => false

def LoopPc.isFinished : LoopPc Msg → Bool
  | .finished => true
  | _ => false

section Steps

variable [DecidableEq κ]

/-- The destructor, run by client `k₀`. -/
def destructor (k₀ : κ) (o : Oracle κ Msg) (s : Lifetime κ Msg) : Option (Lifetime κ Msg) :=
  match s.destructor with
  | .notCalled => some {
      publisher := (s.publisher.goto k₀ (Call.entry .stop)).record (.called k₀ .stop)
      destructor := .stop }
  | .stop => (clientStep s.publisher k₀ o).map fun p =>
      { publisher := p, destructor := if (p.client k₀).isIdle then .poll else .stop }
  -- `while (is_running())`
  | .poll => if s.publisher.isRunning then none else some { s with destructor := .join }
  -- The thread was started by the constructor, so it is joinable.
  | .join => if s.publisher.loop.isFinished then some { s with destructor := .done } else none
  | .done => none

def lifetimeStep (k₀ : κ) :
    Thread κ → LifetimeOracle κ Msg → Lifetime κ Msg → Option (Lifetime κ Msg)
  | .worker, _, s => (publishingLoop s.publisher).map fun p => { s with publisher := p }
  | .client k, o, s =>
      if k = k₀ ∧ (o.destroy = true ∨ s.destructor ≠ .notCalled) then destructor k₀ o.toOracle s
      else (clientStep s.publisher k o.toOracle).map fun p => { s with publisher := p }

/-- All runs of a publisher that client `k₀` may destroy. -/
def lifetime (κ Msg : Type) [DecidableEq κ] [Inhabited Msg] (k₀ : κ) :
    System (Thread κ) (LifetimeOracle κ Msg) (Lifetime κ Msg) where
  start s := s = { publisher := initial, destructor := .notCalled }
  step := lifetimeStep k₀

end Steps

/-- The constructor has returned, and nobody is in a call. -/
def State.Unused (s : State κ Msg) : Prop := s.constructed = true ∧ ∀ k, s.client k = .idle

/-- The publisher is not used from the call of its destructor on. -/
def Exclusive (k₀ : κ) (s : Lifetime κ Msg) (t : Thread κ) (o : LifetimeOracle κ Msg) : Prop :=
  match t with
  | .worker => True
  | .client k => (s.destructor ≠ .notCalled → k = k₀) ∧
      (s.destructor = .notCalled → k = k₀ → o.destroy = true → s.publisher.Unused)

instance [Fintype κ] [DecidableEq Msg] (s : State κ Msg) : Decidable s.Unused :=
  inferInstanceAs (Decidable (_ ∧ ∀ k, s.client k = .idle))

instance [Fintype κ] [DecidableEq κ] [DecidableEq Msg] (k₀ : κ) (s : Lifetime κ Msg) (t : Thread κ)
    (o : LifetimeOracle κ Msg) : Decidable (Exclusive k₀ s t o) :=
  match t with
  | .worker => inferInstanceAs (Decidable True)
  | .client k => inferInstanceAs (Decidable ((s.destructor ≠ .notCalled → k = k₀) ∧
      (s.destructor = .notCalled → k = k₀ → o.destroy = true → s.publisher.Unused)))

/-! ## The loop runs from the constructor on -/

/-- `is_running_` tells whether the loop runs, once the constructor has returned. -/
structure Running (s : State κ Msg) : Prop where
  started : s.loop = .storeRunning → s.turn = .loopNotStarted
  constructed : s.constructed = true → s.turn ≠ .loopNotStarted
  running : s.isRunning = false → s.loop = .storeRunning ∨ s.loop = .finished
  ended : s.loop = .finished → s.isRunning = false

variable {s s' : State κ Msg} {k : κ}

theorem Running.finished (h : Running s) (hconstructed : s.constructed = true)
    (hrunning : s.isRunning = false) : s.loop = .finished :=
  (h.running hrunning).resolve_left fun hpc => h.constructed hconstructed (h.started hpc)

section Running

variable [DecidableEq κ] {o : Oracle κ Msg}

/-- The loop does not come back to its start, and `is_running_` goes false only at its end. -/
theorem publishingLoop_isRunning (h : publishingLoop s = some s') :
    s'.constructed = s.constructed ∧ s'.loop ≠ .storeRunning ∧
      (s'.isRunning = false → s'.loop = .finished ∨
        s.isRunning = false ∧ s.loop ≠ .storeRunning ∧ s.loop ≠ .finished) ∧
      (s'.loop = .finished → s'.isRunning = false) := by
  unfold publishingLoop at h
  cases hpc : s.loop <;> simp only [hpc] at h
  case storeRunning =>
    obtain rfl := Option.some.inj h
    exact ⟨rfl, by simp, by simp, by simp⟩
  case lock =>
    obtain ⟨_, h⟩ := Option.ite_none_right_eq_some.mp h
    obtain rfl := Option.some.inj h
    exact ⟨rfl, by simp, fun hrun => .inr ⟨hrun, by simp⟩, by simp⟩
  case testKeepRunning =>
    split at h <;>
    · obtain rfl := Option.some.inj h
      exact ⟨rfl, by simp [State.record], fun hrun => .inr ⟨hrun, by simp⟩, by simp [State.record]⟩
  case testTurn | testStop | testPublish =>
    obtain rfl := Option.some.inj h
    refine ⟨rfl, ?_, fun hrun => .inr ⟨hrun, by simp⟩, ?_⟩ <;>
    · dsimp only
      split <;> simp
  case storeStopped =>
    obtain rfl := Option.some.inj h
    exact ⟨rfl, by simp, fun _ => .inl rfl, fun _ => rfl⟩
  case finished => cases h
  all_goals
    obtain rfl := Option.some.inj h
    exact ⟨rfl, by simp [State.record], fun hrun => .inr ⟨hrun, by simp⟩, by simp [State.record]⟩

theorem publishingLoop_running (hI : Running s) (hs : LoopStep s s')
    (h : publishingLoop s = some s') : Running s' := by
  obtain ⟨hconstructed, hstarted, hrunning, hended⟩ := publishingLoop_isRunning h
  have hturn : s.turn ≠ .loopNotStarted → s'.turn ≠ .loopNotStarted := by
    intro ht
    rcases hs.data with hd | hd | hd
    · rwa [hd.1]
    · rw [hd.2.2.1]
      decide
    · rwa [hd.1]
  refine ⟨fun hpc => absurd hpc hstarted, fun hc => hturn (hI.constructed (hconstructed ▸ hc)), ?_,
    hended⟩
  intro hrun
  rcases hrunning hrun with hfin | ⟨hrun₀, hnot₁, hnot₂⟩
  · exact .inr hfin
  · exact ((hI.running hrun₀).elim hnot₁ hnot₂).elim

/-- Clients leave `is_running_` alone; one of them returns from the constructor. -/
theorem clientStep_constructed (h : clientStep s k o = some s') : s'.isRunning = s.isRunning ∧
    (s'.constructed = s.constructed ∨ s'.constructed = true ∧ s.turn ≠ .loopNotStarted) := by
  unfold clientStep at h
  cases hc : s.client k with
  | idle =>
    simp only [hc] at h
    split at h
    · obtain rfl := Option.some.inj h
      exact ⟨rfl, .inl rfl⟩
    · obtain ⟨hturn, h⟩ := Option.ite_none_left_eq_some.mp h
      obtain rfl := Option.some.inj h
      exact ⟨rfl, .inr ⟨rfl, hturn⟩⟩
  | tryPublish msg pc =>
    simp only [hc] at h
    cases pc with
    | testTurn owns =>
      simp only [tryPublish] at h
      split at h
      · obtain rfl := Option.some.inj h
        exact ⟨rfl, .inl rfl⟩
      · split at h <;>
        · obtain rfl := Option.some.inj h
          exact ⟨rfl, .inl rfl⟩
    | notify =>
      obtain ⟨cond, _, rfl⟩ := Option.map_eq_some_iff.mp h
      exact ⟨rfl, .inl rfl⟩
    | tryLock | storeMsg | storeTurn | unlock | giveUp =>
      obtain rfl := Option.some.inj h
      exact ⟨rfl, .inl rfl⟩
  | canPublish pc =>
    simp only [hc] at h
    cases pc with
    | testTurn owns =>
      simp only [canPublish] at h
      split at h <;>
      · obtain rfl := Option.some.inj h
        exact ⟨rfl, .inl rfl⟩
    | tryLock | unlock =>
      obtain rfl := Option.some.inj h
      exact ⟨rfl, .inl rfl⟩
  | stop pc =>
    simp only [hc] at h
    cases pc with
    | lock =>
      obtain ⟨_, h⟩ := Option.ite_none_right_eq_some.mp h
      obtain rfl := Option.some.inj h
      exact ⟨rfl, .inl rfl⟩
    | store | unlock =>
      obtain rfl := Option.some.inj h
      exact ⟨rfl, .inl rfl⟩
    | notify =>
      obtain ⟨cond, _, rfl⟩ := Option.map_eq_some_iff.mp h
      exact ⟨rfl, .inl rfl⟩

theorem clientStep_running (hI : Running s) (hs : ClientStep k s s')
    (h : clientStep s k o = some s') : Running s' := by
  obtain ⟨hrun, hconstructed⟩ := clientStep_constructed h
  have hturn : s'.turn = s.turn ∨ s.turn = .realtime ∧ s'.turn ≠ .loopNotStarted := by
    rcases hs.data with hd | hd | hd
    · exact .inl hd.1
    · exact .inl hd.2.2.2.1
    · exact .inr ⟨hd.2.1, by rw [hd.2.2.2.1]; decide⟩
  constructor
  · intro hpc
    have hfirst : s.turn = .loopNotStarted := hI.started (hs.loop ▸ hpc)
    rcases hturn with he | ⟨hrealtime, _⟩
    · exact he.trans hfirst
    · rw [hfirst] at hrealtime
      cases hrealtime
  · intro hc
    have hstarted : s.turn ≠ .loopNotStarted := by
      rcases hconstructed with he | ⟨_, hstarted⟩
      · exact hI.constructed (he ▸ hc)
      · exact hstarted
    rcases hturn with he | ⟨_, hne⟩
    · rwa [he]
    · exact hne
  · rw [hs.loop, hrun]
    exact hI.running
  · rw [hs.loop, hrun]
    exact hI.ended

theorem reachable_running [Inhabited Msg] (h : Reachable (publisher κ Msg) anyStep s) :
    Running s := by
  refine h.invariant ?_ ?_
  · rintro s rfl
    exact ⟨fun _ => rfl, by simp [initial], fun _ => .inl rfl, by simp [initial]⟩
  · intro s t o s' hr hI _ hs
    obtain ⟨hat, hJ⟩ := reachable_at hr
    have hstep : Guarantee t s s' := (step_sound hat hJ hs).guarantee
    cases t with
    | worker => exact publishingLoop_running hI hstep hs
    | client k => exact clientStep_running hI hstep hs

end Running

/-! ## Steps of a lifetime -/

/-- Everything a step can do while the publisher may be destroyed. -/
inductive LifetimeStep [DecidableEq κ] (k₀ : κ) (s : Lifetime κ Msg) :
    Thread κ → Lifetime κ Msg → Prop
  | loop (p : State κ Msg) (h : publishingLoop s.publisher = some p) :
      LifetimeStep k₀ s .worker { s with publisher := p }
  | call (k : κ) (o : Oracle κ Msg) (p : State κ Msg) (hd : s.destructor = .notCalled)
      (h : clientStep s.publisher k o = some p) :
      LifetimeStep k₀ s (.client k) { s with publisher := p }
  | destroy (hd : s.destructor = .notCalled) (hunused : s.publisher.Unused) :
      LifetimeStep k₀ s (.client k₀) {
        publisher := (s.publisher.goto k₀ (Call.entry .stop)).record (.called k₀ .stop)
        destructor := .stop }
  | stop (o : Oracle κ Msg) (p : State κ Msg) (hd : s.destructor = .stop)
      (h : clientStep s.publisher k₀ o = some p) :
      LifetimeStep k₀ s (.client k₀) {
        publisher := p, destructor := if (p.client k₀).isIdle then .poll else .stop }
  | stopped (hd : s.destructor = .poll) (h : s.publisher.isRunning = false) :
      LifetimeStep k₀ s (.client k₀) { s with destructor := .join }
  | joined (hd : s.destructor = .join) (h : s.publisher.loop = .finished) :
      LifetimeStep k₀ s (.client k₀) { s with destructor := .done }

/-- Where the destructor is tells what it has achieved. -/
def Winding (k₀ : κ) (s : Lifetime κ Msg) : Prop :=
  match s.destructor with
  | .notCalled => True
  | .stop => s.publisher.constructed = true ∧ (∀ j, j ≠ k₀ → s.publisher.client j = .idle) ∧
      ∃ pc, s.publisher.client k₀ = .stop pc ∧
        (pc = .unlock ∨ pc = .notify → s.publisher.keepRunning = false)
  | .poll => s.publisher.Unused ∧ s.publisher.keepRunning = false
  | .join | .done => s.publisher.Unused ∧ s.publisher.keepRunning = false ∧
      s.publisher.loop = .finished

section Lifetimes

variable [DecidableEq κ] {k₀ : κ} {t : Thread κ} {l l' : Lifetime κ Msg}

omit [DecidableEq κ] in
theorem LoopPc.isFinished_iff {pc : LoopPc Msg} : pc.isFinished = true ↔ pc = .finished := by
  cases pc <;> simp [isFinished]

theorem destructor_cases {o : Oracle κ Msg} (h : destructor k₀ o l = some l')
    (hunused : l.destructor = .notCalled → l.publisher.Unused) :
    LifetimeStep k₀ l (.client k₀) l' := by
  unfold destructor at h
  cases hd : l.destructor with
  | notCalled =>
    simp only [hd] at h
    obtain rfl := Option.some.inj h
    exact .destroy hd (hunused hd)
  | stop =>
    simp only [hd] at h
    obtain ⟨p, hp, rfl⟩ := Option.map_eq_some_iff.mp h
    exact .stop o p hd hp
  | poll =>
    simp only [hd] at h
    obtain ⟨hrun, h⟩ := Option.ite_none_left_eq_some.mp h
    obtain rfl := Option.some.inj h
    exact .stopped hd (by simpa using hrun)
  | join =>
    simp only [hd] at h
    obtain ⟨hfin, h⟩ := Option.ite_none_right_eq_some.mp h
    obtain rfl := Option.some.inj h
    exact .joined hd (LoopPc.isFinished_iff.mp hfin)
  | done => simp [hd] at h

theorem lifetimeStep_cases {o : LifetimeOracle κ Msg} (hp : Exclusive k₀ l t o)
    (h : lifetimeStep k₀ t o l = some l') : LifetimeStep k₀ l t l' := by
  cases t with
  | worker =>
    obtain ⟨p, hs, rfl⟩ := Option.map_eq_some_iff.mp h
    exact .loop p hs
  | client k =>
    obtain ⟨honly, hunused⟩ := hp
    simp only [lifetimeStep] at h
    split at h
    · rename_i hdestroy
      obtain ⟨rfl, hdestroy⟩ := hdestroy
      refine destructor_cases h fun hd => hunused hd rfl ?_
      exact hdestroy.resolve_right fun hne => hne hd
    · rename_i hdestroy
      obtain ⟨p, hs, rfl⟩ := Option.map_eq_some_iff.mp h
      refine .call k o.toOracle p ?_ hs
      by_contra hd
      exact hdestroy ⟨honly hd, .inr hd⟩

/-- A step of a lifetime is a step of the publisher, or leaves the publisher as it is. -/
theorem LifetimeStep.publisher_step (h : LifetimeStep k₀ l t l') :
    (∃ o, step t o l.publisher = some l'.publisher) ∨ l'.publisher = l.publisher := by
  cases h with
  | loop p hs => exact .inl ⟨{}, hs⟩
  | call k o p _ hs | stop o p _ hs => exact .inl ⟨o, hs⟩
  | destroy _ hunused =>
    refine .inl ⟨{ call := .stop }, ?_⟩
    simp only [step, clientStep, hunused.2 k₀, hunused.1, if_true]
  | stopped | joined => exact .inr rfl

/-- One step of `stop` inside the destructor. -/
theorem stop_winding {o : Oracle κ Msg} {pc : StopPc} (h : stop s k o pc = some s')
    (hkeep : pc = .unlock ∨ pc = .notify → s.keepRunning = false) :
    s'.constructed = s.constructed ∧ (∀ j, j ≠ k → s'.client j = s.client j) ∧
      (s'.client k = .idle ∧ s'.keepRunning = false ∨
        ∃ pc', s'.client k = .stop pc' ∧ (pc' = .unlock ∨ pc' = .notify → s'.keepRunning = false)) := by
  cases pc with
  | lock =>
    obtain ⟨_, h⟩ := Option.ite_none_right_eq_some.mp h
    obtain rfl := Option.some.inj h
    exact ⟨rfl, fun j hj => Function.update_of_ne hj _ _, .inr ⟨.store, State.client_goto _ _ _, by simp⟩⟩
  | store =>
    obtain rfl := Option.some.inj h
    exact ⟨rfl, fun j hj => Function.update_of_ne hj _ _,
      .inr ⟨.unlock, State.client_goto _ _ _, fun _ => rfl⟩⟩
  | unlock =>
    obtain rfl := Option.some.inj h
    exact ⟨rfl, fun j hj => Function.update_of_ne hj _ _,
      .inr ⟨.notify, State.client_goto _ _ _, fun _ => hkeep (.inl rfl)⟩⟩
  | notify =>
    obtain ⟨cond, _, rfl⟩ := Option.map_eq_some_iff.mp h
    exact ⟨rfl, fun j hj => Function.update_of_ne hj _ _,
      .inl ⟨State.client_goto_record _ _ _ _, hkeep (.inr rfl)⟩⟩

theorem Winding.loopStep (h : Winding k₀ l) {p : State κ Msg}
    (hs : LoopStep l.publisher p) (hstep : publishingLoop l.publisher = some p) :
    Winding k₀ { l with publisher := p } := by
  have hconstructed := (publishingLoop_isRunning hstep).1
  have hnot : l.publisher.loop ≠ .finished := by
    intro hpc
    simp [publishingLoop, hpc] at hstep
  unfold Winding State.Unused at h ⊢
  dsimp only
  split at h <;> simp only [hconstructed, hs.client, hs.keepRunning]
  all_goals first
    | exact h
    | exact absurd h.2.2 hnot

theorem LifetimeStep.winding (h : LifetimeStep k₀ l t l') (hI : Winding k₀ l)
    (hrunning : Running l.publisher) (hat : ∀ u, At u l.publisher) (hJ : Shared l.publisher) :
    Winding k₀ l' := by
  cases h with
  | loop p hs =>
    have hs' : step .worker {} l.publisher = some p := hs
    exact hI.loopStep (step_sound hat hJ hs').guarantee hs
  | call k o p hd hs => simp [Winding, hd]
  | destroy hd hunused =>
    refine ⟨hunused.1, fun j hj => ?_, .lock, State.client_goto_record _ _ _ _, by simp⟩
    exact (Function.update_of_ne hj _ _).trans (hunused.2 j)
  | stop o p hd hs =>
    simp only [Winding, hd] at hI
    obtain ⟨hconstructed, hothers, pc, hpc, hkeep⟩ := hI
    simp only [clientStep, hpc] at hs
    obtain ⟨hconstructed', hothers', hk | ⟨pc', hpc', hkeep'⟩⟩ := stop_winding hs hkeep
    · simp only [Winding, hk.1, ClientPc.isIdle, if_true]
      refine ⟨⟨hconstructed'.trans hconstructed, fun j => ?_⟩, hk.2⟩
      by_cases hj : j = k₀
      · exact hj ▸ hk.1
      · exact (hothers' j hj).trans (hothers j hj)
    · simp only [Winding, hpc', ClientPc.isIdle, Bool.false_eq_true, if_false]
      exact ⟨hconstructed'.trans hconstructed,
        fun j hj => (hothers' j hj).trans (hothers j hj), pc', rfl, hkeep'⟩
  | stopped hd hrun =>
    simp only [Winding, hd] at hI
    exact ⟨hI.1, hI.2, hrunning.finished hI.1.1 hrun⟩
  | joined hd hfin =>
    simp only [Winding, hd] at hI
    exact hI

variable [Inhabited Msg]

/-- **The destructor is one more client.**  The publisher of a lifetime goes through a run of a publisher
that nobody destroys. -/
theorem reachable_winding (h : Reachable (lifetime κ Msg k₀) (Exclusive k₀) l) :
    Reachable (publisher κ Msg) anyStep l.publisher ∧ Winding k₀ l := by
  refine h.invariant (I := fun l => Reachable (publisher κ Msg) anyStep l.publisher ∧ Winding k₀ l)
    ?_ ?_
  · rintro l rfl
    exact ⟨.start rfl, trivial⟩
  · rintro l t o l' _ ⟨hr, hI⟩ hp hs
    have hstep := lifetimeStep_cases hp hs
    obtain ⟨hat, hJ⟩ := reachable_at hr
    refine ⟨?_, hstep.winding hI (reachable_running hr) hat hJ⟩
    rcases hstep.publisher_step with ⟨o', hs'⟩ | he
    · exact hr.step trivial hs'
    · rwa [he]

/-- **Nothing is left behind.**  When the destructor is done the thread has ended, nobody is in a call,
the mutex is free and nobody waits on the condition variable, so the members may go.  Everything that was
accepted has been published, except perhaps the last message. -/
theorem destructor_leaves_nothing (h : Reachable (lifetime κ Msg k₀) (Exclusive k₀) l)
    (hdone : l.destructor = .done) :
    l.publisher.loop = .finished ∧ (∀ k, l.publisher.client k = .idle) ∧
      l.publisher.msgMutex = none ∧ l.publisher.updatedCond = ∅ ∧
      (Delivered l.publisher ∨ ∃ msg, Outstanding l.publisher msg) := by
  obtain ⟨hr, hI⟩ := reachable_winding h
  simp only [Winding, hdone] at hI
  obtain ⟨hunused, _, hfin⟩ := hI
  refine ⟨hfin, hunused.2, ?_, ?_, (reachable_at hr).2.atMostOne⟩
  · by_contra hheld
    obtain ⟨u, hu⟩ := Option.ne_none_iff_exists'.mp hheld
    have hleft := (publisher_sections.owner_iff hr u).mp hu
    cases u with
    | worker => simp [State.left, hfin] at hleft
    | client k => simp [State.left, hunused.2 k] at hleft
  · obtain ⟨hwake, honly⟩ := reachable_wakeAt hr
    refine Finset.eq_empty_of_forall_notMem fun u hu => ?_
    obtain rfl := Finset.mem_singleton.mp (honly hu)
    exact (hwake .worker).1 (by simp [hfin]) hu

/-- A message is published, and the publisher destroyed while its loop waits for the next one. -/
def destroyedWhileWaiting : List (Thread Unit × LifetimeOracle Unit Nat) :=
  List.replicate 3 (.worker, { call := .canPublish }) ++
    List.replicate 8 (.client (), { call := .tryPublish 7 }) ++
    List.replicate 12 (.worker, { call := .canPublish }) ++
    List.replicate 5 (.client (), { destroy := true }) ++
    List.replicate 9 (.worker, { call := .canPublish }) ++
    List.replicate 2 (.client (), { call := .canPublish })

theorem destructor_leaves_nothing_published :
    ∃ l : Lifetime Unit Nat, Reachable (lifetime Unit Nat ()) (Exclusive ()) l ∧
      l.publisher.published = [7] ∧ l.publisher.loop = .finished ∧
      (∀ k, l.publisher.client k = .idle) ∧ l.publisher.msgMutex = none ∧
      l.publisher.updatedCond = ∅ ∧
      (Delivered l.publisher ∨ ∃ msg, Outstanding l.publisher msg) := by
  obtain ⟨l, hl, hp⟩ := exists_reachable_of_exec (lifetime Unit Nat ()) (Exclusive ())
    destroyedWhileWaiting { publisher := initial, destructor := .notCalled }
    (fun l => l.publisher.published = [7] ∧ l.destructor = .done) rfl (by decide)
  obtain ⟨hpublished, hdone⟩ : l.publisher.published = [7] ∧ l.destructor = .done := by
    simpa using hp
  exact ⟨l, hl, hpublished, destructor_leaves_nothing hl hdone⟩

/-! ## The destructor comes to its end -/

/-- The steps of the loop until its end, once `keep_running_` is false. -/
@[simp] def LoopPc.leftAfterStop : LoopPc Msg → ℕ
  | .block => 10
  | .storeRealtime | .blocked => 9
  | .lock => 8
  | .testTurn => 7
  | .testStop => 6
  | .copy => 5
  | .unlock _ => 4
  | .testPublish _ | .publish _ | .storeRunning => 3
  | .testKeepRunning => 2
  | .storeStopped => 1
  | .finished => 0

@[simp] def ClientPc.leftOfStop : ClientPc Msg → ℕ
  | .stop .lock => 4
  | .stop .store => 3
  | .stop .unlock => 2
  | .stop .notify => 1
  | _ => 0

/-- The steps of the destructor until its end. -/
def Lifetime.leftOfDestructor (k₀ : κ) (l : Lifetime κ Msg) : ℕ :=
  match l.destructor with
  | .stop => 2 + (l.publisher.client k₀).leftOfStop
  | .poll => 2
  | .join => 1
  | .notCalled | .done => 0

def Lifetime.leftAfterStop (k₀ : κ) (l : Lifetime κ Msg) : ℕ :=
  l.publisher.loop.leftAfterStop + l.leftOfDestructor k₀

/-- The destructor has been called, and `keep_running_` is false. -/
def Stopping (l : Lifetime κ Msg) : Prop :=
  l.destructor ≠ .notCalled ∧ l.publisher.keepRunning = false

omit [DecidableEq κ] [Inhabited Msg] in
theorem Lifetime.leftAfterStop_le (k₀ : κ) (l : Lifetime κ Msg) : l.leftAfterStop k₀ ≤ 16 := by
  have hloop : l.publisher.loop.leftAfterStop ≤ 10 := by
    unfold LoopPc.leftAfterStop
    split <;> decide
  have hclient : (l.publisher.client k₀).leftOfStop ≤ 4 := by
    unfold ClientPc.leftOfStop
    split <;> decide
  have hdestructor : l.leftOfDestructor k₀ ≤ 6 := by
    unfold leftOfDestructor
    split <;> omega
  unfold leftAfterStop
  omega

omit [Inhabited Msg] in
/-- The loop does not go round again. -/
theorem publishingLoop_leftAfterStop (h : publishingLoop s = some s') (hkeep : s.keepRunning = false) :
    s'.loop.leftAfterStop < s.loop.leftAfterStop := by
  unfold publishingLoop at h
  cases hpc : s.loop <;> simp only [hpc, hkeep, Bool.false_eq_true, if_false] at h
  case lock =>
    obtain ⟨_, h⟩ := Option.ite_none_right_eq_some.mp h
    obtain rfl := Option.some.inj h
    simp
  case testTurn =>
    obtain rfl := Option.some.inj h
    dsimp only
    split <;> simp
  case finished => cases h
  all_goals
    obtain rfl := Option.some.inj h
    simp [State.record]

omit [Inhabited Msg] in
theorem stop_leftOfStop {o : Oracle κ Msg} {pc : StopPc} (h : stop s k o pc = some s') :
    s'.loop = s.loop ∧
      (s'.client k).leftOfStop < (ClientPc.stop pc : ClientPc Msg).leftOfStop := by
  cases pc with
  | lock =>
    obtain ⟨_, h⟩ := Option.ite_none_right_eq_some.mp h
    obtain rfl := Option.some.inj h
    exact ⟨rfl, by simp⟩
  | store | unlock =>
    obtain rfl := Option.some.inj h
    exact ⟨rfl, by simp⟩
  | notify =>
    obtain ⟨cond, _, rfl⟩ := Option.map_eq_some_iff.mp h
    exact ⟨rfl, by simp⟩

omit [Inhabited Msg] in
theorem LifetimeStep.leftAfterStop (h : LifetimeStep k₀ l t l') (hI : Winding k₀ l)
    (hat : ∀ u, At u l.publisher) (hJ : Shared l.publisher) (hstopping : Stopping l) :
    l'.leftAfterStop k₀ < l.leftAfterStop k₀ := by
  obtain ⟨hcalled, hkeep⟩ := hstopping
  unfold Lifetime.leftAfterStop Lifetime.leftOfDestructor
  cases h with
  | loop p hs =>
    have hs' : step .worker {} l.publisher = some p := hs
    have hstep : LoopStep l.publisher p := (step_sound hat hJ hs').guarantee
    simp only [hstep.client]
    exact Nat.add_lt_add_right (publishingLoop_leftAfterStop hs hkeep) _
  | call k o p hd hs => exact absurd hd hcalled
  | destroy hd hunused => exact absurd hd hcalled
  | stop o p hd hs =>
    simp only [Winding, hd] at hI
    obtain ⟨_, _, pc, hpc, _⟩ := hI
    simp only [clientStep, hpc] at hs
    obtain ⟨hloop, hclient⟩ := stop_leftOfStop hs
    simp only [hd, hpc, hloop]
    cases (p.client k₀).isIdle with
    | true =>
      simp only [if_true]
      omega
    | false =>
      simp only [Bool.false_eq_true, if_false]
      omega
  | stopped hd hrun | joined hd hfin => simp [hd]

omit [Inhabited Msg] in
/-- A step of the destructor is open to its client. -/
theorem lifetimeStep_destructor {o : Oracle κ Msg} (hcalled : l.destructor ≠ .notCalled)
    (h : destructor k₀ o l = some l') : ∃ t o l', Exclusive k₀ l t o ∧
      (t = .worker → ¬ Sleeping l.publisher) ∧ lifetimeStep k₀ t o l = some l' := by
  refine ⟨.client k₀, { toOracle := o }, l', ⟨fun _ => rfl, fun hd => absurd hd hcalled⟩, by simp, ?_⟩
  simp only [lifetimeStep, hcalled, ne_eq, not_false_eq_true, or_true, and_self, if_true]
  exact h

omit [Inhabited Msg] in
theorem lifetimeStep_loop (hlock : l.publisher.loop = .lock → l.publisher.msgMutex = none)
    (hend : l.publisher.loop ≠ .finished) (hawake : ¬ Sleeping l.publisher) :
    ∃ t o l', Exclusive k₀ l t o ∧ (t = .worker → ¬ Sleeping l.publisher) ∧
      lifetimeStep k₀ t o l = some l' := by
  obtain ⟨p, hp⟩ := publishingLoop_enabled hlock hend
  refine ⟨.worker, {}, { l with publisher := p }, trivial, fun _ => hawake, ?_⟩
  simp only [lifetimeStep, hp, Option.map_some]

/-- Only the loop can keep the destructor waiting for the mutex. -/
theorem loop_owns_mutex (hr : Reachable (publisher κ Msg) anyStep s) {u : Thread κ}
    (hu : s.msgMutex = some u) (hclients : ∀ j, (s.client j).left = 0) : 0 < s.loop.left := by
  have hleft := (publisher_sections.owner_iff hr u).mp hu
  cases u with
  | worker => exact hleft
  | client j => exact absurd (hclients j) (Nat.ne_of_gt hleft)

/-- While nobody is in a call, the loop goes on to its end. -/
theorem lifetimeStep_unused (hr : Reachable (publisher κ Msg) anyStep l.publisher)
    (hunused : l.publisher.Unused) (hkeep : l.publisher.keepRunning = false)
    (hend : l.publisher.loop ≠ .finished) :
    ∃ t o l', Exclusive k₀ l t o ∧ (t = .worker → ¬ Sleeping l.publisher) ∧
      lifetimeStep k₀ t o l = some l' := by
  refine lifetimeStep_loop (fun hlock => ?_) hend fun hsleep => ?_
  · by_contra hheld
    obtain ⟨u, hu⟩ := Option.ne_none_iff_exists'.mp hheld
    have hleft := loop_owns_mutex hr hu fun j => by simp [hunused.2 j]
    simp [hlock] at hleft
  · obtain ⟨j, hj⟩ := ((reachable_wakeAt hr).1 .worker).2 hsleep (.inr hkeep)
    simp [hunused.2 j, Announcing] at hj

/-- While `stop` waits for the mutex, the loop has it and goes on to give it back. -/
theorem lifetimeStep_contended (hr : Reachable (publisher κ Msg) anyStep l.publisher)
    (hlock : l.publisher.client k₀ = .stop .lock)
    (hothers : ∀ j, j ≠ k₀ → l.publisher.client j = .idle) (hheld : l.publisher.msgMutex ≠ none) :
    ∃ t o l', Exclusive k₀ l t o ∧ (t = .worker → ¬ Sleeping l.publisher) ∧
      lifetimeStep k₀ t o l = some l' := by
  obtain ⟨u, hu⟩ := Option.ne_none_iff_exists'.mp hheld
  have hleft : 0 < l.publisher.loop.left := by
    refine loop_owns_mutex hr hu fun j => ?_
    by_cases hj : j = k₀
    · simp [hj, hlock]
    · simp [hothers j hj]
  refine lifetimeStep_loop (fun hloop => ?_) (fun hfin => ?_) fun hsleep => ?_
  · simp [hloop] at hleft
  · simp [hfin] at hleft
  · simp [hsleep.1] at hleft

/-- From the call of the destructor to its end, the loop or the destructor can move. -/
theorem lifetimeStep_called (hr : Reachable (lifetime κ Msg k₀) (Exclusive k₀) l)
    (hcalled : l.destructor ≠ .notCalled) (hnot : l.destructor ≠ .done) :
    ∃ t o l', Exclusive k₀ l t o ∧ (t = .worker → ¬ Sleeping l.publisher) ∧
      lifetimeStep k₀ t o l = some l' := by
  obtain ⟨hr₀, hI⟩ := reachable_winding hr
  have hdestructor : ∀ o l', destructor k₀ o l = some l' → ∃ t o l', Exclusive k₀ l t o ∧
      (t = .worker → ¬ Sleeping l.publisher) ∧ lifetimeStep k₀ t o l = some l' :=
    fun _ _ => lifetimeStep_destructor hcalled
  cases hd : l.destructor with
  | notCalled => exact absurd hd hcalled
  | done => exact absurd hd hnot
  | stop =>
    simp only [Winding, hd] at hI
    obtain ⟨_, hothers, pc, hpc, _⟩ := hI
    by_cases hfree : pc = .lock → l.publisher.msgMutex = none
    · obtain ⟨o, p, hp⟩ := stop_enabled l.publisher k₀ hfree
      refine hdestructor o
        { publisher := p, destructor := if (p.client k₀).isIdle then .poll else .stop } ?_
      simp only [destructor, hd, clientStep, hpc, hp, Option.map_some]
    · push Not at hfree
      obtain ⟨rfl, hheld⟩ := hfree
      exact lifetimeStep_contended hr₀ hpc hothers hheld
  | poll =>
    simp only [Winding, hd] at hI
    by_cases hrun : l.publisher.isRunning = true
    · refine lifetimeStep_unused hr₀ hI.1 hI.2 fun hfin => ?_
      rw [(reachable_running hr₀).ended hfin] at hrun
      cases hrun
    · exact hdestructor {} { l with destructor := .join } (by simp [destructor, hd, hrun])
  | join =>
    simp only [Winding, hd] at hI
    exact hdestructor {} { l with destructor := .done }
      (by simp [destructor, hd, LoopPc.isFinished_iff.mpr hI.2.2])

/-- **The destructor returns.**  From its call to its end the loop or the destructor can move, and the
loop without a spurious wake-up.  Once `keep_running_` is false they have at most sixteen steps to make
until both are at their end. -/
theorem destructor_ends (k₀ : κ) :
    (∀ l, Reachable (lifetime κ Msg k₀) (Exclusive k₀) l → l.destructor ≠ .notCalled →
        l.destructor ≠ .done → ∃ t o l', Exclusive k₀ l t o ∧
          (t = .worker → ¬ Sleeping l.publisher) ∧ (lifetime κ Msg k₀).step t o l = some l') ∧
      ∀ l movers l', Reachable (lifetime κ Msg k₀) (Exclusive k₀) l →
        Proceeds (lifetime κ Msg k₀) (During Stopping (Exclusive k₀)) l movers l' →
          movers.length ≤ 16 := by
  refine ⟨fun l hr hcalled hnot => lifetimeStep_called hr hcalled hnot, fun l movers l' hr hf => ?_⟩
  refine (hf.length_le_rank (Lifetime.leftAfterStop k₀) hr ?_).trans
    (l.leftAfterStop_le k₀)
  intro l t o l' hr hstopping hp hs
  obtain ⟨hr₀, hI⟩ := reachable_winding hr
  obtain ⟨hat, hJ⟩ := reachable_at hr₀
  exact (lifetimeStep_cases hp hs).leftAfterStop hI hat hJ hstopping

end Lifetimes

end RealtimePublisher
