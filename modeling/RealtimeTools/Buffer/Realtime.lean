import RealtimeTools.Buffer.Ownership
import RealtimeTools.Interleaving.CriticalSection
import RealtimeTools.Interleaving.DataRace

/-!
# No races, and no waiting on the realtime side

None of the members is atomic.  The flag and the non-realtime pointer are touched under the mutex only.
The realtime thread reads its own pointer, and words through it, without the mutex: nobody else changes
that pointer, and the writers copy into the other slot.
-/

open Interleaving

namespace RealtimeBuffer.Concurrent

variable {κ ι W : Type} {s s' : State κ ι W} {k : κ} {o : Oracle ι W} {data : ι → W}

/-! ## Accesses -/

/-- The memory that is not atomic. -/
inductive Place (ι : Type)
  | realtimeData
  | nonRealtimeData
  | newDataAvailable
  | word (slot : Slot) (i : ι)
  deriving DecidableEq

/-- What the next step of the realtime thread does to a place. -/
def readerAccess (s : State κ ι W) : Place ι → Option Access
  | .realtimeData => match s.reader with
    | .testNew true => if s.newDataAvailable then some .write else none
    | .returnPointer _ => some .read
    | _ => none
  | .nonRealtimeData => match s.reader with
    | .testNew true => if s.newDataAvailable then some .write else none
    | _ => none
  | .newDataAvailable => match s.reader with
    | .testNew true => if s.newDataAvailable then some .write else some .read
    | _ => none
  -- Between two calls it may look at any word.
  | .word slot _ => match s.reader with
    | .idle => if s.pointer = some slot then some .read else none
    | _ => none

/-- What the next step of client `k` does to a place. -/
def clientAccess (k : κ) (s : State κ ι W) : Place ι → Option Access
  | .realtimeData => match s.client k with
    | .read .testNew => if s.newDataAvailable then none else some .read
    | _ => none
  | .nonRealtimeData => match s.client k with
    | .write _ .evaluate => some .read
    | .read .testNew => if s.newDataAvailable then some .read else none
    | _ => none
  | .newDataAvailable => match s.client k with
    | .write _ .storeNew => some .write
    | .read .testNew => some .read
    | _ => none
  -- The copy may reach any word next.
  | .word slot _ => match s.client k with
    | .write _ (.copy target _) => if target = slot then some .write else none
    | _ => none

def access (t : Thread κ) (s : State κ ι W) (place : Place ι) : Option Access :=
  match t with
  | .worker => readerAccess s place
  | .client k => clientAccess k s place

/-! ## The owner of the mutex -/

theorem owner_of_clientAccess {place : Place ι} (hat : At (.client k) s)
    (h : (access (.client k) s place).isSome) : Owns (.client k) s := by
  have hat : ClientPcAt k s (s.client k) := hat
  simp only [access] at h
  unfold clientAccess at h
  cases hc : s.client k with
  | idle => cases place <;> simp [hc] at h
  | write v pc =>
    rw [hc] at hat
    cases pc with
    | tryLock | unlock => cases place <;> simp [hc] at h
    | evaluate => exact hat
    | copy target copied | storeNew => exact hat.1
  | read pc =>
    rw [hc] at hat
    cases pc with
    | lock | unlock => cases place <;> simp [hc] at h
    | testNew => exact hat

theorem owner_of_readerAccess {place : Place ι} (hat : At .worker s)
    (h : (access .worker s place).isSome) :
    Owns .worker s ∨ access .worker s place = some .read ∧
      (place = .realtimeData ∨ ∃ slot i, place = .word slot i ∧ s.reader = .idle ∧
        s.pointer = some slot) := by
  have hat : ReaderPcAt s s.reader := hat
  simp only [access] at h ⊢
  unfold readerAccess at h ⊢
  cases hpc : s.reader with
  | idle =>
    cases place with
    | word slot i =>
      simp only [hpc] at h ⊢
      split at h
      · rename_i hslot
        exact .inr ⟨if_pos hslot, .inr ⟨slot, i, rfl, trivial, hslot⟩⟩
      · cases h
    | realtimeData | nonRealtimeData | newDataAvailable => simp [hpc] at h
  | testNew owns =>
    rw [hpc] at hat
    cases owns with
    | true => exact .inl (hat rfl)
    | false => cases place <;> simp [hpc] at h
  | returnPointer owns =>
    cases place with
    | realtimeData => exact .inr ⟨rfl, .inl rfl⟩
    | nonRealtimeData | newDataAvailable | word => simp [hpc] at h
  | tryLock | unlock => cases place <;> simp [hpc] at h

/-- Writers copy into the slot that the realtime thread does not read. -/
theorem target_of_write {slot : Slot} {i : ι} (hat : At (.client k) s)
    (h : access (.client k) s (.word slot i) = some .write) : slot = s.nonRealtimeData := by
  have hat : ClientPcAt k s (s.client k) := hat
  simp only [access, clientAccess] at h
  split at h
  · rename_i v target copied hc
    rw [hc] at hat
    obtain ⟨htarget, _⟩ := Option.ite_none_right_eq_some.mp h
    exact htarget.symm.trans hat.2.1
  · cases h

/-- Only the realtime thread changes its own pointer. -/
theorem worker_of_write_realtimeData {t : Thread κ} (h : access t s .realtimeData = some .write) :
    t = .worker := by
  cases t with
  | worker => rfl
  | client k =>
    simp only [access, clientAccess] at h
    split at h
    · split at h <;> cases h
    · cases h

/-- The realtime thread only reads words. -/
theorem client_of_write_word {t : Thread κ} {slot : Slot} {i : ι}
    (h : access t s (.word slot i) = some .write) : ∃ k, t = .client k := by
  cases t with
  | worker =>
    simp only [access, readerAccess] at h
    split at h
    · split at h <;> cases h
    · cases h
  | client k => exact ⟨k, rfl⟩

/-! ## Runs -/

variable [DecidableEq κ] [DecidableEq ι] [Fintype ι]

def ReaderPc.Inside : ReaderPc → Prop
  | .testNew ownsLock | .returnPointer ownsLock => ownsLock = true
  | .unlock => True
  | .idle | .tryLock => False

def ClientPc.Inside : ClientPc ι W → Prop
  | .idle | .write _ .tryLock | .read .lock => False
  | _ => True

def Inside : Thread κ → State κ ι W → Prop
  | .worker, s => s.reader.Inside
  | .client k, s => (s.client k).Inside

omit [DecidableEq κ] [DecidableEq ι] [Fintype ι] in
theorem readFromRT_section (hat : At .worker s) (h : readFromRT s o = some s') :
    SectionStep .worker s.reader.Inside s'.reader.Inside s.mutex s'.mutex := by
  have hat : ReaderPcAt s s.reader := hat
  unfold readFromRT at h
  cases hpc : s.reader with
  | idle =>
    simp only [hpc] at h
    cases hword : o.word with
    | none =>
      simp only [hword] at h
      obtain rfl := Option.some.inj h
      exact .outside _ id id
    | some i =>
      simp only [hword] at h
      obtain ⟨pointer, _, rfl⟩ := Option.map_eq_some_iff.mp h
      exact .outside _ id (by simp [State.record, hpc, ReaderPc.Inside])
  | tryLock =>
    simp only [hpc] at h
    obtain rfl := Option.some.inj h
    rcases s.mutex.tryLock_cases .worker o.spuriousFail with ⟨hm, he⟩ | he <;> rw [he]
    · rw [hm]
      exact .enter id rfl
    · exact .outside _ id (by simp [ReaderPc.Inside])
  | testNew owns =>
    simp only [hpc] at h
    cases owns with
    | true =>
      split at h <;>
      · obtain rfl := Option.some.inj h
        exact .inside _ rfl rfl
    | false =>
      obtain rfl := Option.some.inj h
      exact .outside _ (by simp [ReaderPc.Inside]) (by simp [ReaderPc.Inside])
  | returnPointer owns =>
    simp only [hpc] at h
    obtain rfl := Option.some.inj h
    cases owns with
    | true => exact .inside _ rfl trivial
    | false => exact .outside _ (by simp [ReaderPc.Inside]) (by simp [State.record, ReaderPc.Inside])
  | unlock =>
    simp only [hpc] at h
    rw [hpc] at hat
    have hown : s.mutex = some .worker := hat
    obtain rfl := Option.some.inj h
    rw [hown]
    exact .leave trivial id

theorem clientStep_section (hat : At (.client k) s) (h : clientStep s k o = some s') :
    SectionStep (.client k) (s.client k).Inside (s'.client k).Inside s.mutex s'.mutex := by
  have hat : ClientPcAt k s (s.client k) := hat
  unfold clientStep at h
  cases hpc : s.client k with
  | idle =>
    simp only [hpc] at h
    obtain rfl := Option.some.inj h
    refine .outside _ id ?_
    cases o.call <;> simp [State.goto, State.record, Call.entry, ClientPc.Inside]
  | write v pc =>
    simp only [hpc] at h
    rw [hpc] at hat
    cases pc with
    | tryLock =>
      rcases s.mutex.tryLock_cases (.client k) o.spuriousFail with ⟨hm, he⟩ | he
      · simp only [writeFromNonRT, he, Option.some.injEq] at h
        subst h
        rw [hm]
        exact .enter id (by simp [State.goto, ClientPc.Inside])
      · simp only [writeFromNonRT, he, Option.some.injEq] at h
        subst h
        exact .outside _ id (by simp [State.goto, ClientPc.Inside])
    | evaluate | storeNew =>
      obtain rfl := Option.some.inj h
      exact .inside _ trivial (by simp [State.goto, ClientPc.Inside])
    | copy target copied =>
      simp only [writeFromNonRT] at h
      cases hword : o.word with
      | some i =>
        simp only [hword] at h
        obtain rfl := Option.some.inj h
        exact .inside _ trivial (by simp [State.goto, ClientPc.Inside])
      | none =>
        simp only [hword] at h
        obtain ⟨_, h⟩ := Option.ite_none_right_eq_some.mp h
        obtain rfl := Option.some.inj h
        exact .inside _ trivial (by simp [State.goto, ClientPc.Inside])
    | unlock =>
      have hown : s.mutex = some (.client k) := hat.1
      obtain rfl := Option.some.inj h
      rw [hown]
      exact .leave trivial (by simp [State.goto, State.record, ClientPc.Inside])
  | read pc =>
    simp only [hpc] at h
    rw [hpc] at hat
    cases pc with
    | lock =>
      obtain ⟨hfree, h⟩ := Option.ite_none_right_eq_some.mp h
      obtain rfl := Option.some.inj h
      rw [hfree]
      exact .enter id (by simp [State.goto, ClientPc.Inside])
    | testNew =>
      obtain rfl := Option.some.inj h
      exact .inside _ trivial (by simp [State.goto, ClientPc.Inside])
    | unlock pointer =>
      have hown : s.mutex = some (.client k) := hat
      obtain rfl := Option.some.inj h
      rw [hown]
      exact .leave trivial (by simp [State.goto, State.record, ClientPc.Inside])

theorem buffer_sections (data : ι → W) :
    Sections (buffer κ data) anyStep State.mutex Inside where
  start := by
    rintro s rfl
    refine ⟨rfl, fun t => ?_⟩
    cases t <;> exact id
  own := by
    intro s t o s' hr _ hs
    have hat := (reachable_at hr).1 t
    cases t with
    | worker => exact readFromRT_section hat hs
    | client k => exact clientStep_section hat hs
  others := by
    intro s t o s' u hr _ hs hut
    obtain ⟨hI, hJ⟩ := reachable_at hr
    have hstep : Guarantee t s s' := (step_sound hI hJ hs).guarantee
    cases t with
    | worker =>
      have hstep : ReaderStep s s' := hstep
      cases u with
      | worker => exact absurd rfl hut
      | client j => exact Iff.of_eq (congrArg (fun c => (c j).Inside) hstep.client)
    | client k =>
      have hstep : ClientStep k s s' := hstep
      cases u with
      | worker => exact Iff.of_eq (congrArg ReaderPc.Inside hstep.reader)
      | client j => exact Iff.of_eq (congrArg ClientPc.Inside (hstep.others j (by simpa using hut)))

/-! ## Waiting -/

/-- The steps of the realtime thread until its `readFromRT` returns. -/
@[simp] def ReaderPc.left : ReaderPc → ℕ
  | .tryLock => 4
  | .testNew _ => 3
  | .returnPointer _ => 2
  | .unlock => 1
  | .idle => 0

omit [DecidableEq κ] [DecidableEq ι] [Fintype ι] in
theorem ReaderPc.left_le (pc : ReaderPc) : pc.left ≤ 4 := by
  cases pc <;> simp

omit [DecidableEq κ] [DecidableEq ι] [Fintype ι] in
/-- The realtime thread is never blocked, and every step of a call brings it nearer its end. -/
theorem readFromRT_enabled (s : State κ ι W) : ∃ s', readFromRT s { word := none } = some s' := by
  unfold readFromRT
  cases hpc : s.reader with
  | testNew owns =>
    dsimp only
    split <;> exact ⟨_, rfl⟩
  | _ => exact ⟨_, rfl⟩

omit [DecidableEq κ] [DecidableEq ι] [Fintype ι] in
theorem readFromRT_lowers (h : readFromRT s o = some s') (hpc : s.reader ≠ .idle) :
    s'.reader.left < s.reader.left := by
  unfold readFromRT at h
  cases hr : s.reader with
  | idle => exact absurd hr hpc
  | tryLock | unlock =>
    simp only [hr] at h
    obtain rfl := Option.some.inj h
    simp
  | testNew owns =>
    simp only [hr] at h
    split at h <;>
    · obtain rfl := Option.some.inj h
      simp
  | returnPointer owns =>
    simp only [hr] at h
    obtain rfl := Option.some.inj h
    cases owns <;> simp [State.record]

/-- A client is blocked by the mutex only, in `readFromNonRT`. -/
theorem clientStep_enabled (h : s.client k = .read .lock → s.mutex = none) :
    ∃ o s', clientStep s k o = some s' := by
  unfold clientStep
  cases hc : s.client k with
  | idle => exact ⟨{ word := none }, _, rfl⟩
  | write v pc =>
    cases pc with
    | copy target copied =>
      by_cases hall : copied = Finset.univ
      · exact ⟨{ word := none }, _, if_pos hall⟩
      · obtain ⟨i, _⟩ := not_forall.mp fun hmem => hall (Finset.eq_univ_iff_forall.mpr hmem)
        exact ⟨{ word := some i }, _, rfl⟩
    | _ => exact ⟨{ word := none }, _, rfl⟩
  | read pc =>
    cases pc with
    | lock => exact ⟨{ word := none }, _, if_pos (h hc)⟩
    | _ => exact ⟨{ word := none }, _, rfl⟩

/-- **The realtime side never waits.**  `readFromRT` returns after four of its own steps at the latest,
whatever the other threads do.  A thread that cannot move is in `readFromNonRT` and waits for the mutex of
another thread, which can move. -/
theorem readFromRT_waitFree (data : ι → W) :
    WaitFree (buffer κ data) anyStep .worker (fun s => s.reader ≠ .idle) 4 ∧
      ∀ s t, Reachable (buffer κ data) anyStep s → (∀ o, step t o s = none) →
        ∃ k u, t = .client k ∧ s.client k = .read .lock ∧ s.mutex = some u ∧ u ≠ t ∧
          ∃ o s', step u o s = some s' := by
  constructor
  · refine .of_rank (fun s => s.reader.left) (fun s _ _ => ⟨{ word := none }, readFromRT_enabled s⟩)
      (fun s _ => s.reader.left_le) fun s u o s' hr hbusy _ hs => ⟨?_, fun hu => ?_⟩
    · rintro rfl
      exact readFromRT_lowers hs hbusy
    · obtain ⟨hI, hJ⟩ := reachable_at hr
      cases u with
      | worker => exact absurd rfl hu
      | client k =>
        have hs : step (.client k) o s = some s' := hs
        have hstep : ClientStep k s s' := (step_sound hI hJ hs).guarantee
        exact (congrArg ReaderPc.left hstep.reader).le
  · intro s t hr hblocked
    cases t with
    | worker =>
      obtain ⟨s', hs⟩ := readFromRT_enabled s
      cases (hblocked { word := none }).symm.trans hs
    | client k =>
      have hlock : s.client k = .read .lock ∧ s.mutex ≠ none := by
        by_contra hnot
        obtain ⟨o, s', hs⟩ := clientStep_enabled (s := s) (k := k) fun hc => by
          by_contra hheld
          exact hnot ⟨hc, hheld⟩
        cases (hblocked o).symm.trans hs
      obtain ⟨hc, hheld⟩ := hlock
      obtain ⟨u, hu⟩ := Option.ne_none_iff_exists'.mp hheld
      have hinside := ((buffer_sections data).owner_iff hr u).mp hu
      refine ⟨k, u, rfl, hc, hu, ?_, ?_⟩
      · rintro rfl
        simp [Inside, hc, ClientPc.Inside] at hinside
      · cases u with
        | worker => exact ⟨{ word := none }, readFromRT_enabled s⟩
        | client j =>
          refine clientStep_enabled fun hj => ?_
          simp [Inside, hj, ClientPc.Inside] at hinside

end RealtimeBuffer.Concurrent
