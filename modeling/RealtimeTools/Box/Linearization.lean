import RealtimeTools.Box.Exclusion

/-!
# A box is an atomic register

Every step of every entry point is one of five kinds: it moves on, records an event, takes a lock,
gives one back, or writes to a box it owns.  The discipline of the locks then makes the events legal
in the order in which the locks were taken, and the events of each thread form calls.
-/

open Interleaving

namespace RealtimeThreadSafeBox

variable {κ β ι W : Type} [DecidableEq κ] [DecidableEq β] [DecidableEq ι]
variable {init : β → ι → W} {s s' : State κ β ι W} {k : κ} {o : Oracle β ι W}

/-- What is proved of a step of thread `k`. -/
structure Sound (init : β → ι → W) (k : κ) (s s' : State κ β ι W) : Prop where
  step : Step init k s s'
  own : At init k s'

/-! ## Kinds of steps -/

theorem at_of_pc {pc : ClientPc β ι W} (hclient : s'.client = Function.update s.client k pc)
    (hat : PcAt init k s' pc) : At init k s' := by
  unfold At
  rwa [hclient, Function.update_self]

theorem sound_goto {pc : ClientPc β ι W} (hstage : pc.stage = (s.client k).stage)
    (hat : PcAt init k s pc) : Sound init k s (s.goto k pc) where
  step :=
    { others := fun j hj => Function.update_of_ne hj _ _
      event := .inl ⟨rfl, rfl, by simp [hstage]⟩
      value := fun _ => .inr rfl
      released := fun b hb hfree => nomatch hb.symm.trans hfree }
  own := at_of_pc rfl (hat.frame (fun _ => id) (fun _ _ => rfl) (fun _ _ => rfl) fun _ _ => rfl)

/-- An event that leaves the locks alone. -/
theorem sound_record {pc : ClientPc β ι W} {e : Event κ β ι W}
    (hnext : (s.client k).stage.Next k e pc.stage) (hlegal : Legal init s.history e)
    (hlocks : ∀ b m, e.locks b m = m) (hat : PcAt init k ((s.goto k pc).record e) pc) :
    Sound init k s ((s.goto k pc).record e) where
  step :=
    { others := fun j hj => Function.update_of_ne hj _ _
      event := .inr ⟨e, rfl, by simpa using hnext, hlegal,
        fun b => (hlocks b _).symm⟩
      value := fun _ => .inr rfl
      released := fun b hb hfree => nomatch hb.symm.trans hfree }
  own := at_of_pc rfl hat

theorem sound_acquire {pc : ClientPc β ι W} {b : β} (hJ : Shared init s) (hfree : s.lock b = none)
    (hnext : (s.client k).stage.Next k (.acquired k b) pc.stage)
    (hat : PcAt init k (((s.setLock b (some k)).goto k pc).record (.acquired k b)) pc) :
    Sound init k s (((s.setLock b (some k)).goto k pc).record (.acquired k b)) where
  step :=
    { others := fun j hj => Function.update_of_ne hj _ _
      event := .inr ⟨_, rfl, by simpa using hnext,
        (hJ.holder b).trans hfree, fun c => by
          simp [Function.update_apply, Event.locks, eq_comm]⟩
      value := fun _ => .inr rfl
      released := fun c hc hnone => by
        by_cases hcb : c = b
        · subst hcb
          cases hfree.symm.trans hc
        · simp only [State.record, State.goto, State.setLock, Function.update_of_ne hcb] at hnone
          cases hc.symm.trans hnone }
  own := at_of_pc rfl hat

/-- Giving a lock back: the box holds what the effect says. -/
theorem sound_release {pc : ClientPc β ι W} {b : β} {effect : Effect ι W} (hJ : Shared init s)
    (hown : Owns k b s) (hread : ∀ v, effect = .read v → v = current init b s.history)
    (hvalue : s.value b = (Event.released k b effect).leaves b (current init b s.history))
    (hnext : (s.client k).stage.Next k (.released k b effect) pc.stage)
    (hat : PcAt init k (((s.setLock b none).goto k pc).record (.released k b effect)) pc) :
    Sound init k s (((s.setLock b none).goto k pc).record (.released k b effect)) where
  step :=
    { others := fun j hj => Function.update_of_ne hj _ _
      event := .inr ⟨_, rfl, by simpa using hnext,
        ⟨(hJ.holder b).trans hown, hread⟩, fun c => by
          simp [Function.update_apply, Event.locks, eq_comm]⟩
      value := fun _ => .inr rfl
      released := fun c hc hnone => by
        by_cases hcb : c = b
        · subst hcb
          exact hvalue.trans current_concat.symm
        · simp only [State.record, State.goto, State.setLock, Function.update_of_ne hcb] at hnone
          cases hc.symm.trans hnone }
  own := at_of_pc rfl hat

/-- Writing to boxes that the thread owns. -/
theorem sound_write {pc : ClientPc β ι W} {value : β → ι → W}
    (hvalue : ∀ b, Owns k b s ∨ value b = s.value b) (hstage : pc.stage = (s.client k).stage)
    (hat : PcAt init k { s with value } pc) :
    Sound init k s ({ s with value }.goto k pc) where
  step :=
    { others := fun j hj => Function.update_of_ne hj _ _
      event := .inl ⟨rfl, rfl, by simp [hstage]⟩
      value := hvalue
      released := fun b hb hfree => nomatch hb.symm.trans hfree }
  own := at_of_pc rfl (hat.frame (fun _ => id) (fun _ _ => rfl) (fun _ _ => rfl) fun _ _ => rfl)

/-- A callback writes a word of its argument. -/
theorem sound_put {b : β} {tries : Bool} {i : ι} {content : W} (hJ : Shared init s)
    (hpc : s.client k = .access b tries .modify .callback) (hown : Owns k b s)
    (hvalue : s.value b = argument init k b s.history) :
    Sound init k s ((s.setValue b (Function.update (s.value b) i content)).record
      (.put k b i content)) where
  step :=
    { others := fun _ _ => rfl
      event := .inr ⟨_, rfl, by
        rw [State.client_record]
        show (s.client k).stage.Next k _ (s.client k).stage
        rw [hpc]
        exact .put b tries i content, (hJ.holder b).trans hown, fun _ => rfl⟩
      value := fun c => by
        by_cases hcb : c = b
        · exact .inl (hcb ▸ hown)
        · exact .inr (Function.update_of_ne hcb _ _)
      released := fun c hc hfree => nomatch hc.symm.trans hfree }
  own := by
    show PcAt init k _ (s.client k)
    rw [hpc]
    refine ⟨hown, rfl, ?_, fun ha => nomatch ha⟩
    simp [State.setValue, Event.shows, hvalue]

omit [DecidableEq β] [DecidableEq ι] in
theorem goto_self {pc : ClientPc β ι W} (hpc : s.client k = pc) : s.goto k pc = s := by
  rw [State.goto, ← hpc, Function.update_eq_self]

/-- A box is as it was while its lock is being taken. -/
theorem Shared.unwritten_acquired {b : β} (pc : ClientPc β ι W) (hJ : Shared init s)
    (hfree : s.lock b = none) :
    Unwritten init b (((s.setLock b (some k)).goto k pc).record (.acquired k b)) := by
  have hu : s.value b = current init b s.history := hJ.free b hfree
  simpa [Unwritten, Event.leaves] using hu

/-! ## Every step is sound -/

theorem copy_sound {b : β} {tries : Bool} {a : Access ι W} {copied : Finset ι} {out : ι → W}
    (hat : AccessAt init k b a s (.copy copied out))
    (hpc : s.client k = .access b tries a (.copy copied out)) (i : ι) (content : W) :
    Sound init k s ((s.setValue b (a.copyWord (s.value b) out i content).1).goto k
      (.access b tries a (.copy (insert i copied) (a.copyWord (s.value b) out i content).2))) := by
  obtain ⟨hown, hc, hstore, hload⟩ := hat
  refine sound_write (fun c => ?_) (by rw [hpc]; rfl) ⟨hown, hc, ?_, ?_⟩
  · by_cases hcb : c = b
    · exact .inl (hcb ▸ hown)
    · exact .inr (Function.update_of_ne hcb _ _)
  · rintro v rfl
    simp only [Function.update_self]
    exact (hstore v rfl).copyWord i
  · rintro rfl
    obtain ⟨hu, hcopied⟩ := hload rfl
    simp only [Unwritten, Function.update_self]
    exact ⟨hu, hcopied.copyWord i⟩

theorem callback_sound {b : β} {tries : Bool} {a : Access ι W}
    (hJ : Shared init s) (hat : AccessAt init k b a s .callback)
    (hpc : s.client k = .access b tries a .callback) (i : ι) :
    Sound init k s (s.record (.looked k b i (s.value b i))) := by
  have hown : Owns k b s := hat.1
  have hsound : Sound init k s ((s.goto k (.access b tries a .callback)).record
      (.looked k b i (s.value b i))) := by
    refine sound_record ?_ ⟨(hJ.holder b).trans hown, by rw [hat.2.2.1]⟩ (fun _ _ => rfl) ?_
    · rw [hpc]
      exact .look b tries a i _
    · have hpcAt : PcAt init k s (.access b tries a .callback) := hat
      exact hpcAt.frame (fun _ => id) (fun _ _ => rfl) (fun _ _ => by simp [Event.leaves])
        fun _ _ => by simp [Event.shows]
  rwa [goto_self hpc] at hsound

variable [Fintype ι] [Inhabited W]

theorem accessStep_sound {b : β} {tries : Bool} {a : Access ι W} {pc : AccessPc ι W}
    (hJ : Shared init s) (hat : At init k s) (hpc : s.client k = .access b tries a pc)
    (h : accessStep s k o b tries a pc = some s') : Sound init k s s' := by
  unfold At at hat
  rw [hpc] at hat
  have hat : AccessAt init k b a s pc := hat
  cases pc with
  | lock =>
    simp only [accessStep] at h
    split at h
    · rename_i hfree
      obtain rfl := Option.some.inj h
      refine sound_acquire hJ hfree.1 ?_ ?_
      · rw [hpc]
        cases a <;> exact .acquire b tries _
      · have hown : Owns k b (((s.setLock b (some k)).goto k (.access b tries a a.body)).record
            (.acquired k b)) := by
          simp [Owns]
        have hu := hJ.unwritten_acquired (k := k) (.access b tries a a.body) hfree.1
        cases a with
        | store v => exact ⟨hown, rfl, fun _ _ => copied_empty, fun ha => nomatch ha⟩
        | load => exact ⟨hown, rfl, fun _ ha => (nomatch ha), fun _ => ⟨hu, copied_empty⟩⟩
        | moveOut => exact ⟨hown, rfl, fun _ ha => (nomatch ha), fun ha => nomatch ha⟩
        | modify | inspect => exact ⟨hown, rfl, hu⟩
    · split at h
      · rename_i htries
        obtain rfl := Option.some.inj h
        refine sound_record ?_ trivial (fun _ _ => rfl) trivial
        rw [hpc, htries]
        exact .fail b a
      · cases h
  | copy copied out =>
    simp only [accessStep] at h
    split at h
    · rename_i i _
      obtain rfl := Option.some.inj h
      exact copy_sound hat hpc i o.content
    · obtain ⟨hall, h⟩ := Option.ite_none_right_eq_some.mp h
      obtain rfl := Option.some.inj h
      subst hall
      obtain ⟨hown, hc, hstore, hload⟩ := hat
      refine sound_goto ?_ ⟨hown, fun v hv => (hstore v hv).eq, fun ha => ?_, ?_⟩
      · rw [hpc]
        cases a with
        | store v | load | moveOut => rfl
        | modify | inspect => cases hc
      · exact ⟨(hload ha).1, (hload ha).2.eq⟩
      · rintro rfl
        cases hc
  | invoke =>
    obtain rfl := Option.some.inj h
    obtain ⟨hown, hc, hu⟩ := hat
    refine sound_record ?_ ⟨(hJ.holder b).trans hown, hu⟩ (fun _ _ => rfl) ⟨hown, hc, ?_, ?_⟩
    · rw [hpc]
      exact .invoke b tries a _
    · simp [Event.shows]
    · intro _
      have hu : s.value b = current init b s.history := hu
      simpa [Unwritten, Event.leaves] using hu
  | callback =>
    simp only [accessStep] at h
    split at h
    · rename_i i _
      split at h <;> obtain rfl := Option.some.inj h
      · exact sound_put hJ hpc hat.1 hat.2.2.1
      · exact callback_sound hJ hat hpc i
    · obtain rfl := Option.some.inj h
      obtain ⟨hown, hc, _, hinspect⟩ := hat
      refine sound_goto ?_ ⟨hown, ?_, ?_, hinspect⟩
      · rw [hpc]
        cases a with
        | store v | load | moveOut => cases hc
        | modify | inspect => rfl
      · rintro v rfl
        cases hc
      · rintro rfl
        cases hc
  | unlock out =>
    obtain rfl := Option.some.inj h
    obtain ⟨hown, hstore, hload, hinspect⟩ := hat
    refine sound_release hJ hown ?_ ?_ ?_ trivial
    · intro v hv
      cases a with
      | load =>
        obtain ⟨hu, hout⟩ := hload rfl
        obtain rfl : out = v := by simpa [Access.effect] using hv
        exact hout.trans hu
      | store w | modify | inspect | moveOut => cases hv
    · cases a with
      | store v => simpa [Access.effect, Event.leaves] using hstore v rfl
      | load => exact (hload rfl).1
      | inspect => exact hinspect rfl
      | modify | moveOut => simp [Access.effect, Event.leaves]
    · rw [hpc]
      cases a with
      | store v => exact .store b tries v out
      | load => exact .load b tries out
      | moveOut => exact .moveOut b tries _ out
      | modify => exact .modified b tries _ out
      | inspect => exact .inspected b tries out
  | finish out =>
    obtain rfl := Option.some.inj h
    refine sound_record ?_ trivial (fun _ _ => rfl) trivial
    rw [hpc]
    exact .return _

omit [Inhabited W] in
theorem assignStep_sound {target source : β} {moving : Bool} {pc : AssignPc ι W}
    (hJ : Shared init s) (hat : At init k s) (hpc : s.client k = .assign target source moving pc)
    (h : assignStep s k o target source moving pc = some s') : Sound init k s s' := by
  unfold At at hat
  rw [hpc] at hat
  have hat : AssignAt init k target source moving s pc := hat
  cases pc with
  | testSelf =>
    obtain rfl := Option.some.inj h
    refine sound_goto ?_ ?_
    · rw [hpc]
      by_cases hst : source = target <;> simp [ClientPc.stage, hst]
    · by_cases hst : source = target
      · rw [if_pos hst]
        trivial
      · rw [if_neg hst]
        exact hst
  | lockSource =>
    obtain ⟨hfree, h⟩ := Option.ite_none_right_eq_some.mp h
    obtain rfl := Option.some.inj h
    refine sound_acquire hJ hfree ?_ ⟨hat, by simp [Owns], hJ.unwritten_acquired _ hfree⟩
    rw [hpc]
    exact .acquireSource target source moving hat
  | lockTarget =>
    obtain ⟨hfree, h⟩ := Option.ite_none_right_eq_some.mp h
    obtain rfl := Option.some.inj h
    obtain ⟨hne, hown, hu⟩ := hat
    have hu : s.value source = current init source s.history := hu
    refine sound_acquire hJ hfree ?_ ⟨hne, ?_, by simp [Owns], fun _ => ⟨?_, copied_empty⟩⟩
    · rw [hpc]
      exact .acquireTarget target source moving
    · simpa [Owns, hne] using hown
    · simpa [Unwritten, Event.leaves] using hu
  | copy copied =>
    obtain ⟨hne, hsource, htarget, hcopy⟩ := hat
    simp only [assignStep] at h
    split at h
    · rename_i i _
      obtain rfl := Option.some.inj h
      refine sound_write (fun b => ?_) (by rw [hpc]; rfl) ⟨hne, hsource, htarget, ?_⟩
      · by_cases hbs : b = source
        · exact .inl (hbs ▸ hsource)
        · by_cases hbt : b = target
          · exact .inl (hbt ▸ htarget)
          · exact .inr (by simp [State.setValue, hbs, hbt])
      · rintro rfl
        obtain ⟨hu, hcopied⟩ := hcopy rfl
        have hu : s.value source = current init source s.history := hu
        simp only [Unwritten, State.setValue, Bool.false_eq_true, if_false, Function.update_self,
          Function.update_of_ne (Ne.symm hne)]
        exact ⟨hu, hcopied.copyWord i⟩
    · obtain ⟨hall, h⟩ := Option.ite_none_right_eq_some.mp h
      obtain rfl := Option.some.inj h
      subst hall
      exact sound_goto (by rw [hpc]; rfl)
        ⟨hne, hsource, htarget, fun hm => ⟨(hcopy hm).1, (hcopy hm).2.eq⟩⟩
  | unlockTarget =>
    obtain rfl := Option.some.inj h
    obtain ⟨hne, hsource, htarget, hcopy⟩ := hat
    refine sound_release hJ htarget (fun _ hv => by cases hv) (by simp [Event.leaves]) ?_
      ⟨hne, ?_, fun hm => ⟨?_, (hcopy hm).2⟩⟩
    · rw [hpc]
      exact .releaseTarget target source moving _ hne
    · simpa [Owns, hne] using hsource
    · have hu : s.value source = current init source s.history := (hcopy hm).1
      simpa [Unwritten, Event.leaves, Ne.symm hne] using hu
  | unlockSource stored =>
    obtain rfl := Option.some.inj h
    obtain ⟨hne, hsource, hcopy⟩ := hat
    refine sound_release hJ hsource ?_ ?_ ?_ trivial
    · intro v hv
      cases moving with
      | true => cases hv
      | false =>
        obtain rfl : stored = v := by simpa using hv
        exact (hcopy rfl).2.trans (hcopy rfl).1
    · cases moving with
      | true => simp [Event.leaves]
      | false => exact (hcopy rfl).1
    · rw [hpc]
      simp only [ClientPc.stage, if_neg hne]
      cases moving with
      | true => exact .moved source stored _
      | false => exact .copied source stored
  | finish =>
    obtain rfl := Option.some.inj h
    refine sound_record ?_ trivial (fun _ _ => rfl) trivial
    rw [hpc]
    simp only [ClientPc.stage]
    split
    · rename_i hst
      subst hst
      exact .self source moving
    · exact .return _

theorem step_sound (hJ : Shared init s) (hat : At init k s) (h : step k o s = some s') :
    Sound init k s s' := by
  unfold step at h
  cases hpc : s.client k with
  | idle =>
    simp only [hpc] at h
    obtain rfl := Option.some.inj h
    refine sound_record ?_ trivial (fun _ _ => rfl) ?_
    · rw [hpc]
      cases hcall : o.call <;> exact .call _
    · cases o.call <;> trivial
  | access b tries a pc =>
    simp only [hpc] at h
    exact accessStep_sound hJ hat hpc h
  | assign target source moving pc =>
    simp only [hpc] at h
    exact assignStep_sound hJ hat hpc h

/-! ## Runs -/

theorem reachable_at (h : Reachable (boxes κ init) anyStep s) : (∀ k, At init k s) ∧ Shared init s := by
  refine h.rely_guarantee (I := At init) (J := Shared init) (G := Step init) ?_ ?_ ?_
  · rintro s rfl
    exact ⟨fun _ => trivial, justified_nil, fun _ => rfl, fun _ _ => rfl⟩
  · intro s k o s' _ hI hJ _ hs
    have hsound := step_sound hJ (hI k) hs
    exact ⟨hsound.own, hsound.step.shared hJ, hsound.step⟩
  · intro s s' k j hkj hI hJ _ hs
    exact at_frame (hI k) hJ hs hkj

/-- The events of a thread are calls. -/
theorem reachable_makesCalls (h : Reachable (boxes κ init) anyStep s) (k : κ) :
    MakesCalls k (eventsOf k s.history) (s.client k).stage := by
  refine h.invariant (I := fun s => ∀ k, MakesCalls k (eventsOf k s.history) (s.client k).stage)
    ?_ ?_ k
  · rintro s rfl k
    exact .nil
  · intro s j o s' hr hI _ hs k
    obtain ⟨hat, hJ⟩ := reachable_at hr
    have hstep := (step_sound hJ (hat j) hs).step
    rcases hstep.event with ⟨hh, _, hstage⟩ | ⟨e, hh, hnext, _, _⟩
    · rw [hh]
      by_cases hkj : k = j
      · subst hkj
        rw [hstage]
        exact hI k
      · rw [hstep.others k hkj]
        exact hI k
    · rw [hh, eventsOf_concat]
      by_cases hkj : k = j
      · subst hkj
        rw [if_pos hnext.client]
        exact .concat (hI k) hnext
      · have hne : e.client ≠ k := fun hk => hkj (hk.symm.trans hnext.client)
        rw [if_neg hne, List.append_nil, hstep.others k hkj]
        exact hI k

/-- Thread `true` copies one box into the other, word by word; `try_get` fails in the middle. -/
def copiedWhileTried : List (Bool × Oracle Bool Bool Nat) :=
  List.replicate 4 (true, { call := copyAssign false true, content := 0 }) ++
    [(true, { call := get false, word := some true, content := 0 })] ++
    List.replicate 2 (false, { call := tryGet false, content := 0 }) ++
    [(true, { call := get false, word := some false, content := 0 })] ++
    List.replicate 4 (true, { call := get false, content := 0 })

end RealtimeThreadSafeBox
