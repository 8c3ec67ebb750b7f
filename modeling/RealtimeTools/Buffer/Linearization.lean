import RealtimeTools.Buffer.Ownership
import RealtimeTools.Buffer.Register
import RealtimeTools.Interleaving.AtomicObject

/-!
# The threads see one register

A call of `writeFromNonRT` or `readFromNonRT` takes effect when it gives the mutex back, a call of
`readFromRT` when it returns the pointer.  In the order of these moments the calls of any number of
threads have the results of the register with a snapshot view: the non-realtime side reads the last
value written, and the realtime thread takes that value over whenever it gets the mutex.
-/

open Interleaving Sequential

namespace RealtimeBuffer.Concurrent

variable {κ ι W : Type}

/-- The call that takes effect at a step, and what the pointer it returns points to. -/
def effect (t : Thread κ) (_ : Oracle ι W) (s : State κ ι W) :
    Option (Op Unit (ι → W) × Option (ι → W)) :=
  match t with
  | .worker => match s.reader with
    | .returnPointer ownsLock => some (.readFromRT () ownsLock, some (s.slots s.realtimeData))
    | _ => none
  | .client k => match s.client k with
    | .write data .unlock => some (.writeFromNonRT () data, none)
    | .read (.unlock pointer) => some (.readFromNonRT (), some (s.slots pointer))
    | _ => none

/-- The one buffer of the object `call` that the threads use. -/
def one (r : Register (ι → W)) : Unit → Option (Register (ι → W)) := fun _ => some r

/-- The register behind the two slots. -/
structure Represents (r : Register (ι → W)) (s : State κ ι W) : Prop where
  /-- A swap shows in the slot before it shows in the register. -/
  view : s.slots s.realtimeData = if s.reader = .returnPointer true then r.latest else r.view
  old : s.newDataAvailable = false → s.slots s.realtimeData = r.latest
  new : s.newDataAvailable = true →
    (∃ k, (s.client k).writing = true) ∨ s.slots s.nonRealtimeData = r.latest
  reading : ∀ k pointer, s.client k = .read (.unlock pointer) → s.slots pointer = r.latest
  stored : ∀ k data, s.client k = .write data .unlock → s.newDataAvailable = true

variable {s s' : State κ ι W} {k : κ} {o : Oracle ι W} {data : ι → W} {r : Register (ι → W)}

/-! ## Operations of the register -/

@[simp] theorem update_one (r r' : Register (ι → W)) :
    Function.update (one r) () (some r') = one r' :=
  funext fun _ => Function.update_self _ _ _

section Register

variable [Inhabited W]

theorem call_readFromRT (ownsLock : Bool) (r : Register (ι → W)) :
    Register.call (.readFromRT () ownsLock) (one r) =
      some (one (if ownsLock then { r with view := r.latest } else r),
        some (if ownsLock then r.latest else r.view)) := by
  cases ownsLock with
  | false => rfl
  | true => simp [Register.call, show one r () = some r from rfl]

theorem call_readFromNonRT (r : Register (ι → W)) :
    Register.call (.readFromNonRT ()) (one r) = some (one r, some r.latest) := rfl

theorem call_writeFromNonRT (data : ι → W) (r : Register (ι → W)) :
    Register.call (.writeFromNonRT () data) (one r) = some (one { r with latest := data }, none) := by
  simp [Register.call, show one r () = some r from rfl]

end Register

/-! ## Owners -/

theorem owner_of_writing (hat : At (.client k) s) (h : (s.client k).writing = true) :
    Owns (.client k) s := by
  have hat : ClientPcAt k s (s.client k) := hat
  cases hc : s.client k with
  | idle | read pc =>
    rw [hc] at h
    cases h
  | write v pc =>
    rw [hc] at h hat
    cases pc with
    | tryLock => cases h
    | evaluate => exact hat
    | copy target copied | storeNew | unlock => exact hat.1

theorem owner_of_reading {pointer : Slot} (hat : At (.client k) s)
    (h : s.client k = .read (.unlock pointer)) : Owns (.client k) s := by
  have hat : ClientPcAt k s (s.client k) := hat
  rwa [h] at hat

/-- The last value is where the realtime side or the non-realtime side points. -/
theorem Represents.latest (h : Represents r s) (hnobody : ∀ k, (s.client k).writing = false) :
    s.slots (if s.newDataAvailable then s.nonRealtimeData else s.realtimeData) = r.latest := by
  cases hnew : s.newDataAvailable with
  | false => exact h.old hnew
  | true =>
    refine (h.new hnew).resolve_left ?_
    rintro ⟨k, hk⟩
    rw [hnobody k] at hk
    cases hk

theorem nobody_writes {t : Thread κ} (hI : ∀ u, At u s) (hown : Owns t s)
    (ht : ∀ k, t = .client k → (s.client k).writing = false) (k : κ) :
    (s.client k).writing = false := by
  by_contra hk
  have hk : (s.client k).writing = true := by simpa using hk
  obtain rfl := Option.some.inj (hown.symm.trans (owner_of_writing (hI (.client k)) hk))
  rw [ht k rfl] at hk
  cases hk

/-! ## The realtime thread -/

/-- The realtime thread goes on and leaves the data alone. -/
theorem Represents.reader_move {pc : ReaderPc} {mutex : Mutex (Thread κ)} (h : Represents r s)
    (hpc : pc ≠ .returnPointer true) (hpc₀ : s.reader ≠ .returnPointer true) :
    Represents r { s with mutex, reader := pc } where
  view := by
    rw [if_neg hpc]
    exact h.view.trans (if_neg hpc₀)
  old := h.old
  new := h.new
  reading := h.reading
  stored := h.stored

variable [Inhabited W] [DecidableEq κ]

omit [DecidableEq κ] in
theorem readFromRT_performs (hI : ∀ t, At t s) (hr : Represents r s) (h : readFromRT s o = some s') :
    ∃ r', Performs Register.call (effect .worker o s) (one r) (one r') ∧ Represents r' s' := by
  have hat : ReaderPcAt s s.reader := hI .worker
  unfold readFromRT at h
  unfold effect
  cases hpc : s.reader with
  | idle =>
    simp only [hpc] at h
    refine ⟨r, rfl, ?_⟩
    cases hword : o.word with
    | none =>
      simp only [hword] at h
      obtain rfl := Option.some.inj h
      exact hr.reader_move (by simp) (by simp [hpc])
    | some i =>
      simp only [hword] at h
      obtain ⟨pointer, _, rfl⟩ := Option.map_eq_some_iff.mp h
      exact ⟨hr.view, hr.old, hr.new, hr.reading, hr.stored⟩
  | tryLock =>
    simp only [hpc] at h
    obtain rfl := Option.some.inj h
    exact ⟨r, rfl, hr.reader_move (by simp) (by simp [hpc])⟩
  | testNew owns =>
    simp only [hpc] at h
    rw [hpc] at hat
    refine ⟨r, rfl, ?_⟩
    have hview : s.slots s.realtimeData = r.view := hr.view.trans (if_neg (by simp [hpc]))
    split at h <;> obtain rfl := Option.some.inj h
    · rename_i hswap
      obtain ⟨rfl, hnew⟩ : owns = true ∧ s.newDataAvailable = true := by simpa using hswap
      have hnobody := nobody_writes hI (hat rfl) (by simp)
      have hlatest := hr.latest hnobody
      rw [if_pos hnew] at hlatest
      refine ⟨hlatest, fun _ => hlatest, by simp, hr.reading, fun k data hk => ?_⟩
      have hwriting := hnobody k
      rw [hk] at hwriting
      cases hwriting
    · rename_i hswap
      refine ⟨?_, hr.old, hr.new, hr.reading, hr.stored⟩
      cases owns with
      | false => exact hview
      | true => exact hr.old (by simpa using hswap)
  | returnPointer owns =>
    simp only [hpc] at h
    obtain rfl := Option.some.inj h
    have hview := hr.view
    rw [hpc] at hview
    refine ⟨if owns then { r with view := r.latest } else r, ?_, ?_⟩
    · show Register.call _ _ = _
      rw [call_readFromRT, hview]
      cases owns <;> rfl
    · cases owns with
      | false => exact ⟨hview, hr.old, hr.new, hr.reading, hr.stored⟩
      | true => exact ⟨hview, hr.old, hr.new, hr.reading, hr.stored⟩
  | unlock =>
    simp only [hpc] at h
    obtain rfl := Option.some.inj h
    exact ⟨r, rfl, hr.reader_move (by simp) (by simp [hpc])⟩

/-! ## The clients -/

omit [Inhabited W] in
/-- A client goes on and leaves the data alone. -/
theorem Represents.client_move {pc : ClientPc ι W} (h : Represents r s)
    (hclient : s'.client = Function.update s.client k pc) (hslots : s'.slots = s.slots)
    (hreader : s'.reader = s.reader)
    (hdata : s'.realtimeData = s.realtimeData ∧ s'.nonRealtimeData = s.nonRealtimeData ∧
      s'.newDataAvailable = s.newDataAvailable)
    (hwriting : (s.client k).writing = true → pc.writing = true)
    (hreading : ∀ pointer, pc = .read (.unlock pointer) → s.slots pointer = r.latest)
    (hstored : ∀ data, pc ≠ .write data .unlock) : Represents r s' where
  view := by
    rw [hslots, hreader, hdata.1]
    exact h.view
  old := by
    rw [hslots, hdata.1, hdata.2.2]
    exact h.old
  new := by
    rw [hslots, hclient, hdata.2.1, hdata.2.2]
    exact fun hnew => (h.new hnew).imp
      (exists_update (p := fun pc : ClientPc ι W => pc.writing = true) · hwriting) id
  reading := by
    intro j pointer hj
    rw [hslots]
    by_cases hjk : j = k
    · subst hjk
      rw [hclient, Function.update_self] at hj
      exact hreading pointer hj
    · rw [hclient, Function.update_of_ne hjk] at hj
      exact h.reading j pointer hj
  stored := by
    intro j v hj
    rw [hdata.2.2]
    by_cases hjk : j = k
    · subst hjk
      rw [hclient, Function.update_self] at hj
      exact absurd hj (hstored v)
    · rw [hclient, Function.update_of_ne hjk] at hj
      exact h.stored j v hj

omit [Inhabited W] [DecidableEq κ] in
/-- While client `k` owns the mutex nobody else is in a critical section. -/
theorem alone_in_section (hI : ∀ t, At t s) (hown : Owns (.client k) s) :
    s.reader ≠ .returnPointer true ∧ ∀ j pointer, j ≠ k → s.client j ≠ .read (.unlock pointer) := by
  constructor
  · intro hpc
    have hat : ReaderPcAt s s.reader := hI .worker
    rw [hpc] at hat
    cases Option.some.inj (hown.symm.trans (hat rfl))
  · intro j pointer hjk hpc
    have hj := owner_of_reading (hI (.client j)) hpc
    exact hjk (by simpa using Option.some.inj (hj.symm.trans hown))

omit [Inhabited W] in
theorem goto_of_ne {j : κ} (s : State κ ι W) (pc : ClientPc ι W) (hjk : j ≠ k) :
    (s.goto k pc).client j = s.client j :=
  Function.update_of_ne hjk _ _

omit [Inhabited W] in
theorem goto_self (s : State κ ι W) (k : κ) (pc : ClientPc ι W) : (s.goto k pc).client k = pc :=
  Function.update_self _ _ _

omit [Inhabited W] in
/-- A word arrives in the slot that nobody else looks at. -/
theorem Represents.copyWord {data : ι → W} {slot : ι → W} {copied copied' : Finset ι}
    (h : Represents r s) (hI : ∀ t, At t s) (hne : s.realtimeData ≠ s.nonRealtimeData)
    (hpc : s.client k = .write data (.copy s.nonRealtimeData copied)) :
    Represents r ({ s with slots := Function.update s.slots s.nonRealtimeData slot }.goto k
      (.write data (.copy s.nonRealtimeData copied'))) := by
  have hown := owner_of_writing (hI (.client k)) (by rw [hpc]; rfl)
  have hview : Function.update s.slots s.nonRealtimeData slot s.realtimeData =
      s.slots s.realtimeData := Function.update_of_ne hne _ _
  refine ⟨hview.trans h.view, fun hnew => hview.trans (h.old hnew), fun _ => .inl ⟨k, ?_⟩, ?_, ?_⟩
  · rw [goto_self]
    rfl
  · intro j pointer hj
    by_cases hjk : j = k
    · rw [hjk, goto_self] at hj
      cases hj
    · rw [goto_of_ne _ _ hjk] at hj
      exact absurd hj ((alone_in_section hI hown).2 j pointer hjk)
  · intro j v hj
    by_cases hjk : j = k
    · rw [hjk, goto_self] at hj
      cases hj
    · rw [goto_of_ne _ _ hjk] at hj
      exact h.stored j v hj

omit [Inhabited W] in
/-- The flag announces the value that has been written. -/
theorem Represents.storeNew (data : ι → W) (h : Represents r s) :
    Represents r ({ s with newDataAvailable := true }.goto k (.write data .unlock)) := by
  refine ⟨h.view, fun hold => (by cases hold), fun _ => .inl ⟨k, ?_⟩, ?_, fun _ _ _ => rfl⟩
  · rw [goto_self]
    rfl
  · intro j pointer hj
    by_cases hjk : j = k
    · rw [hjk, goto_self] at hj
      cases hj
    · rw [goto_of_ne _ _ hjk] at hj
      exact h.reading j pointer hj

omit [Inhabited W] in
/-- A write takes effect. -/
theorem Represents.wrote {data : ι → W} (h : Represents r s) (hI : ∀ t, At t s)
    (hpc : s.client k = .write data .unlock) :
    Represents { r with latest := data }
      (({ s with mutex := none }.goto k .idle).record (.wrote k data)) := by
  have hat : ClientPcAt k s (s.client k) := hI (.client k)
  rw [hpc] at hat
  obtain ⟨hown, hslot⟩ := hat
  obtain ⟨hreader, hothers⟩ := alone_in_section hI hown
  have hnew : s.newDataAvailable = true := h.stored k data hpc
  refine ⟨?_, ?_, fun _ => .inr hslot, ?_, fun _ _ _ => hnew⟩
  · show s.slots s.realtimeData = if s.reader = .returnPointer true then data else r.view
    rw [if_neg hreader]
    exact h.view.trans (if_neg hreader)
  · intro hold
    cases hnew.symm.trans hold
  · intro j pointer hj
    by_cases hjk : j = k
    · rw [hjk] at hj
      cases (goto_self _ _ _).symm.trans hj
    · exact absurd ((goto_of_ne _ _ hjk).symm.trans hj) (hothers j pointer hjk)

variable [DecidableEq ι] [Fintype ι]

theorem clientStep_performs (hI : ∀ t, At t s) (hne : s.realtimeData ≠ s.nonRealtimeData)
    (hr : Represents r s) (h : clientStep s k o = some s') :
    ∃ r', Performs Register.call (effect (.client k) o s) (one r) (one r') ∧ Represents r' s' := by
  unfold clientStep at h
  dsimp only [effect]
  cases hpc : s.client k with
  | idle =>
    simp only [hpc] at h
    obtain rfl := Option.some.inj h
    refine ⟨r, rfl, hr.client_move rfl rfl rfl ⟨rfl, rfl, rfl⟩ (by simp [hpc, ClientPc.writing]) ?_ ?_⟩ <;>
      cases o.call <;> simp [Call.entry]
  | write v pc =>
    simp only [hpc] at h
    cases pc with
    | tryLock =>
      obtain rfl := Option.some.inj h
      refine ⟨r, rfl, hr.client_move rfl rfl rfl ⟨rfl, rfl, rfl⟩ (by simp [hpc, ClientPc.writing])
        (by simp) fun data => ?_⟩
      split <;> simp
    | evaluate =>
      obtain rfl := Option.some.inj h
      exact ⟨r, rfl, hr.client_move rfl rfl rfl ⟨rfl, rfl, rfl⟩ (fun _ => rfl) (by simp) (by simp)⟩
    | copy target copied =>
      have hat : ClientPcAt k s (s.client k) := hI (.client k)
      rw [hpc] at hat
      obtain ⟨_, rfl, _⟩ := hat
      simp only [writeFromNonRT] at h
      refine ⟨r, rfl, ?_⟩
      cases hword : o.word with
      | some i =>
        simp only [hword] at h
        obtain rfl := Option.some.inj h
        exact hr.copyWord hI hne hpc
      | none =>
        simp only [hword] at h
        obtain ⟨_, h⟩ := Option.ite_none_right_eq_some.mp h
        obtain rfl := Option.some.inj h
        exact hr.client_move rfl rfl rfl ⟨rfl, rfl, rfl⟩ (fun _ => rfl) (by simp) (by simp)
    | storeNew =>
      obtain rfl := Option.some.inj h
      exact ⟨r, rfl, hr.storeNew v⟩
    | unlock =>
      obtain rfl := Option.some.inj h
      exact ⟨{ r with latest := v }, call_writeFromNonRT v r, hr.wrote hI hpc⟩
  | read pc =>
    simp only [hpc] at h
    cases pc with
    | lock =>
      obtain ⟨_, h⟩ := Option.ite_none_right_eq_some.mp h
      obtain rfl := Option.some.inj h
      exact ⟨r, rfl, hr.client_move rfl rfl rfl ⟨rfl, rfl, rfl⟩ (by simp [hpc, ClientPc.writing])
        (by simp) (by simp)⟩
    | testNew =>
      obtain rfl := Option.some.inj h
      have hat : ClientPcAt k s (s.client k) := hI (.client k)
      rw [hpc] at hat
      have hlatest := hr.latest (nobody_writes hI hat fun j hj => by
        obtain rfl : k = j := by simpa using hj
        simp [hpc, ClientPc.writing])
      refine ⟨r, rfl, hr.client_move rfl rfl rfl ⟨rfl, rfl, rfl⟩ (by simp [hpc, ClientPc.writing])
        (fun pointer he => ?_) (by simp)⟩
      obtain rfl := ReadPc.unlock.inj (ClientPc.read.inj he)
      exact hlatest
    | unlock pointer =>
      obtain rfl := Option.some.inj h
      refine ⟨r, ?_, hr.client_move rfl rfl rfl ⟨rfl, rfl, rfl⟩ (by simp [hpc, ClientPc.writing])
        (by simp) (by simp)⟩
      show Register.call _ _ = _
      rw [call_readFromNonRT, hr.reading k pointer hpc]

/-- **A buffer is a register with a snapshot view.**  In every run of the realtime thread and any other
threads, the calls in the order in which they take effect have the results of the register, which begins
with the value of the constructor. -/
theorem buffer_linearizable (data : ι → W) :
    Linearizable (buffer κ data) anyStep Register.call (one { latest := data, view := data })
      effect := by
  refine .of_step (fun v s => ∃ r, v = one r ∧ Represents r s) ?_ ?_
  · rintro s rfl
    exact ⟨_, rfl, rfl, fun _ => rfl, fun hnew => (by cases hnew), fun _ _ hk => (by cases hk),
      fun _ _ hk => (by cases hk)⟩
  · rintro s t o s' v hr ⟨r, rfl, hrep⟩ _ hs
    obtain ⟨hI, hJ⟩ := reachable_at hr
    have hperforms : ∃ r', Performs Register.call (effect t o s) (one r) (one r') ∧
        Represents r' s' := by
      cases t with
      | worker => exact readFromRT_performs hI hrep hs
      | client k => exact clientStep_performs hI hJ.distinct hrep hs
    obtain ⟨r', hp, hrep'⟩ := hperforms
    exact ⟨one r', hp, r', rfl, hrep'⟩

end RealtimeBuffer.Concurrent
