import RealtimeTools.Box.Events

/-!
# Mutual exclusion

What one step of a thread may do, said once: it changes values of boxes whose lock it owns, its event
is legal and moves the locks, and a box it gives back holds its current value.  The assertion of a
thread that is inside a box is then not disturbed by the others.
-/

open Interleaving

namespace RealtimeThreadSafeBox

variable {κ β ι W : Type} [DecidableEq κ] [DecidableEq β] [DecidableEq ι]
variable {init : β → ι → W} {s s' : State κ β ι W} {k : κ} {o : Oracle β ι W}

/-! ## Assertions at the program points -/

omit [DecidableEq κ] [DecidableEq β] [DecidableEq ι] in
def Owns (k : κ) (b : β) (s : State κ β ι W) : Prop := s.lock b = some k

omit [DecidableEq κ] [DecidableEq ι] in
/-- Nobody has written to `b` since the last completed write. -/
def Unwritten (init : β → ι → W) (b : β) (s : State κ β ι W) : Prop :=
  s.value b = current init b s.history

omit [DecidableEq κ] [DecidableEq β] [DecidableEq ι] in
/-- The accesses that copy, against those that invoke a callback. -/
def Access.copies : Access ι W → Bool
  | .store _ | .load | .moveOut => true
  | .modify | .inspect => false

def AccessAt (init : β → ι → W) (k : κ) (b : β) (a : Access ι W) (s : State κ β ι W) :
    AccessPc ι W → Prop
  | .lock | .finish _ => True
  | .copy copied out =>
      Owns k b s ∧ a.copies = true ∧ (∀ v, a = .store v → Copied v (s.value b) copied) ∧
        (a = .load → Unwritten init b s ∧ Copied (s.value b) out copied)
  | .invoke => Owns k b s ∧ a.copies = false ∧ Unwritten init b s
  | .callback =>
      Owns k b s ∧ a.copies = false ∧ s.value b = argument init k b s.history ∧
        (a = .inspect → Unwritten init b s)
  | .unlock out =>
      Owns k b s ∧ (∀ v, a = .store v → s.value b = v) ∧
        (a = .load → Unwritten init b s ∧ out = s.value b) ∧ (a = .inspect → Unwritten init b s)

def AssignAt (init : β → ι → W) (k : κ) (target source : β) (moving : Bool)
    (s : State κ β ι W) : AssignPc ι W → Prop
  | .testSelf | .finish => True
  | .lockSource => source ≠ target
  | .lockTarget => source ≠ target ∧ Owns k source s ∧ Unwritten init source s
  | .copy copied =>
      source ≠ target ∧ Owns k source s ∧ Owns k target s ∧
        (moving = false → Unwritten init source s ∧ Copied (s.value source) (s.value target) copied)
  | .unlockTarget =>
      source ≠ target ∧ Owns k source s ∧ Owns k target s ∧
        (moving = false → Unwritten init source s ∧ s.value target = s.value source)
  | .unlockSource stored =>
      source ≠ target ∧ Owns k source s ∧
        (moving = false → Unwritten init source s ∧ stored = s.value source)

def PcAt (init : β → ι → W) (k : κ) (s : State κ β ι W) : ClientPc β ι W → Prop
  | .idle => True
  | .access b _ a pc => AccessAt init k b a s pc
  | .assign target source moving pc => AssignAt init k target source moving s pc

def At (init : β → ι → W) (k : κ) (s : State κ β ι W) : Prop := PcAt init k s (s.client k)

structure Shared (init : β → ι → W) (s : State κ β ι W) : Prop where
  legal : Justified (Legal init) s.history
  holder : ∀ b, holder b s.history = s.lock b
  free : ∀ b, s.lock b = none → Unwritten init b s

/-! ## What one step may do -/

/-- A step of thread `k`. -/
structure Step (init : β → ι → W) (k : κ) (s s' : State κ β ι W) : Prop where
  others : ∀ j, j ≠ k → s'.client j = s.client j
  event : (s'.history = s.history ∧ s'.lock = s.lock ∧
      (s'.client k).stage = (s.client k).stage) ∨
    ∃ e : Event κ β ι W, s'.history = s.history ++ [e] ∧
      (s.client k).stage.Next k e (s'.client k).stage ∧ Legal init s.history e ∧
      ∀ b, s'.lock b = e.locks b (s.lock b)
  value : ∀ b, Owns k b s ∨ s'.value b = s.value b
  released : ∀ b, Owns k b s → s'.lock b = none → Unwritten init b s'

omit [DecidableEq κ] [DecidableEq ι] in
/-- Only the owner of a lock changes what a box is worth. -/
theorem leaves_eq {e : Event κ β ι W} {b : β} {v : ι → W} (hholder : holder b s.history ≠ some k)
    (he : e.client = k) (hlegal : ∀ c effect, e = .released k c effect →
      holder c s.history = some k) : e.leaves b v = v := by
  cases e with
  | released j c effect =>
    obtain rfl : j = k := he
    have hc : c ≠ b := fun hcb => hholder (hcb ▸ hlegal c effect rfl)
    cases effect with
    | wrote w => exact if_neg hc
    | read w | inspected => rfl
  | _ => rfl

theorem Legal.released {e : Event κ β ι W} {before : List (Event κ β ι W)}
    (h : Legal init before e) (c : β) (effect : Effect ι W) (he : e = .released k c effect) :
    RealtimeThreadSafeBox.holder c before = some k := by
  subst he
  exact h.1

namespace Step

/-- Outside the boxes it owns, a step changes neither the value nor what it should be. -/
theorem current_eq (h : Step init k s s') (hJ : Shared init s) {b : β} (hb : ¬ Owns k b s) :
    current init b s'.history = current init b s.history := by
  rcases h.event with ⟨hh, _, _⟩ | ⟨e, hh, hnext, hlegal, _⟩
  · rw [hh]
  · rw [hh, current_concat]
    exact leaves_eq (by rwa [hJ.holder]) hnext.client hlegal.released

theorem value_eq (h : Step init k s s') {b : β} (hb : ¬ Owns k b s) : s'.value b = s.value b :=
  (h.value b).resolve_left hb

theorem mutex (h : Step init k s s') (hJ : Shared init s) (b : β) :
    MutexStep k (s.lock b) (s'.lock b) := by
  rcases h.event with ⟨_, hlock, _⟩ | ⟨e, _, hnext, hlegal, hlock⟩
  · rw [hlock]
    exact .keep _
  · have hclient := hnext.client
    rw [hlock]
    cases e with
    | acquired j c =>
      obtain rfl : j = k := hclient
      by_cases hcb : c = b
      · subst hcb
        have hfree : s.lock c = none := (hJ.holder c).symm.trans hlegal
        simp only [Event.locks, if_true, hfree]
        exact .acquire
      · simp only [Event.locks, if_neg hcb]
        exact .keep _
    | released j c effect =>
      obtain rfl : j = k := hclient
      by_cases hcb : c = b
      · subst hcb
        have hown : s.lock c = some j := (hJ.holder c).symm.trans hlegal.1
        simp only [Event.locks, if_true, hown]
        exact .release
      · simp only [Event.locks, if_neg hcb]
        exact .keep _
    | _ => exact .keep _

/-- The callbacks of the others see what they saw. -/
theorem argument_eq (h : Step init k s s') {j : κ} (hj : j ≠ k) (b : β) :
    argument init j b s'.history = argument init j b s.history := by
  rcases h.event with ⟨hh, _, _⟩ | ⟨e, hh, hnext, _, _⟩
  · rw [hh]
  · have hclient := hnext.client
    rw [hh, argument_concat]
    cases e with
    | invoked i c value | put i c i' word =>
      obtain rfl : i = k := hclient
      exact if_neg fun hik => hj hik.1.symm
    | _ => rfl

theorem shared (h : Step init k s s') (hJ : Shared init s) : Shared init s' where
  legal := by
    rcases h.event with ⟨hh, _, _⟩ | ⟨e, hh, _, hlegal, _⟩
    · rw [hh]
      exact hJ.legal
    · rw [hh]
      exact justified_concat.mpr ⟨hJ.legal, hlegal⟩
  holder b := by
    rcases h.event with ⟨hh, hlock, _⟩ | ⟨e, hh, _, _, hlock⟩
    · rw [hh, hlock]
      exact hJ.holder b
    · rw [hh, holder_concat, hlock, hJ.holder]
  free b hfree := by
    by_cases hb : Owns k b s
    · exact h.released b hb hfree
    · have hold : s.lock b = none := by
        cases hl : s.lock b with
        | none => rfl
        | some j =>
          have hj : j ≠ k := fun hjk => hb (hjk ▸ hl)
          exact absurd ((h.mutex hJ b).owner_kept hj hl) (by simp [hfree])
      unfold Unwritten
      rw [h.value_eq hb, h.current_eq hJ hb]
      exact hJ.free b hold

end Step

/-! ## Frames -/

theorem PcAt.frame {pc : ClientPc β ι W} (h : PcAt init k s pc)
    (hown : ∀ b, Owns k b s → Owns k b s')
    (hvalue : ∀ b, Owns k b s → s'.value b = s.value b)
    (hcurrent : ∀ b, Owns k b s → current init b s'.history = current init b s.history)
    (hargument : ∀ b, Owns k b s → argument init k b s'.history = argument init k b s.history) :
    PcAt init k s' pc := by
  have hunwritten : ∀ b, Owns k b s → Unwritten init b s → Unwritten init b s' := by
    intro b hb hu
    unfold Unwritten
    rw [hvalue b hb, hcurrent b hb]
    exact hu
  cases pc with
  | idle => trivial
  | access b tries a pc =>
    cases pc with
    | lock | finish out => trivial
    | copy copied out =>
      obtain ⟨ho, hc, hstore, hload⟩ := h
      refine ⟨hown b ho, hc, ?_, ?_⟩
      · rwa [hvalue b ho]
      · rw [hvalue b ho]
        exact fun ha => (hload ha).imp (hunwritten b ho) id
    | invoke => exact ⟨hown b h.1, h.2.1, hunwritten b h.1 h.2.2⟩
    | callback =>
      obtain ⟨ho, hc, harg, hinspect⟩ := h
      exact ⟨hown b ho, hc, by rw [hvalue b ho, hargument b ho, harg],
        fun ha => hunwritten b ho (hinspect ha)⟩
    | unlock out =>
      obtain ⟨ho, hstore, hload, hinspect⟩ := h
      refine ⟨hown b ho, ?_, ?_, fun ha => hunwritten b ho (hinspect ha)⟩
      · rwa [hvalue b ho]
      · rw [hvalue b ho]
        exact fun ha => (hload ha).imp (hunwritten b ho) id
  | assign target source moving pc =>
    cases pc with
    | testSelf | finish => trivial
    | lockSource => exact h
    | lockTarget => exact ⟨h.1, hown _ h.2.1, hunwritten _ h.2.1 h.2.2⟩
    | copy copied | unlockTarget =>
      obtain ⟨hne, hs, ht, hcopy⟩ := h
      refine ⟨hne, hown _ hs, hown _ ht, ?_⟩
      rw [hvalue _ hs, hvalue _ ht]
      exact fun hm => (hcopy hm).imp (hunwritten _ hs) id
    | unlockSource stored =>
      obtain ⟨hne, hs, hcopy⟩ := h
      refine ⟨hne, hown _ hs, ?_⟩
      rw [hvalue _ hs]
      exact fun hm => (hcopy hm).imp (hunwritten _ hs) id

theorem at_frame {j : κ} (h : At init k s) (hJ : Shared init s) (hs : Step init j s s')
    (hkj : k ≠ j) : At init k s' := by
  have hnot : ∀ b, Owns k b s → ¬ Owns j b s :=
    fun b hk hj => hkj (Option.some.inj (hk.symm.trans hj))
  unfold At
  rw [hs.others k hkj]
  exact PcAt.frame h (fun b hb => (hs.mutex hJ b).owner_kept hkj hb)
    (fun b hb => hs.value_eq (hnot b hb)) (fun b hb => hs.current_eq hJ (hnot b hb))
    (fun b _ => hs.argument_eq hkj b)

end RealtimeThreadSafeBox
