import RealtimeTools.Buffer.Register

/-!
# The memory of buffers

Over whole lifetimes, from the constructors to the destructor: every object that is alive belongs to a
buffer that is alive, so nothing leaks, although the pointers swap and `reset` replaces both objects.
Every call, the destructor included, finds its objects alive, so nothing is deleted twice.
-/

open Sequential

namespace RealtimeBuffer

variable {ι T : Type}

/-! ## The destructor -/

/-- `~RealtimeBuffer()`. -/
def destroy (heap : Heap T) (b : Buffer) : Option (Heap T) := do
  let heap ← heap.delete b.nonRealtimeData
  heap.delete b.realtimeData

inductive LifetimeOp (ι T : Type)
  | call (op : Op ι T)
  | destroy (i : ι)

def State.remove [DecidableEq ι] (s : State ι T) (i : ι) (heap : Heap T) : State ι T where
  heap := heap
  buffers := Function.update s.buffers i none

/-- The calls with the destructor, which needs a buffer that is alive. -/
def lifetimeCall [Inhabited T] [DecidableEq ι] : Object (LifetimeOp ι T) (State ι T) (Option T)
  | .call op, s => call op s
  | .destroy i, s => do
      let b ← s.buffers i
      let heap ← destroy s.heap b
      return (s.remove i heap, none)

/-- The same on registers. -/
def Register.lifetimeCall [Inhabited T] [DecidableEq ι] :
    Object (LifetimeOp ι T) (ι → Option (Register T)) (Option T)
  | .call op, r => Register.call op r
  | .destroy i, r => (r i).map fun _ => (Function.update r i none, none)

/-! ## What a call leaves alive -/

/-- What is alive afterwards belongs to `b'`, or was alive and not one of `own`. -/
def Tidy (heap : Heap T) (own : Nat → Prop) (heap' : Heap T) (b' : Buffer) : Prop :=
  ∀ a, (heap'.load a).isSome → b'.Owns a ∨ (heap.load a).isSome ∧ ¬ own a

variable {heap heap' heap'' : Heap T} {b b' : Buffer} {own own' : Nat → Prop} {data : T} {a : Nat}

theorem Tidy.mono (h : Tidy heap own heap' b') (hown : ∀ a, own' a → own a) :
    Tidy heap own' heap' b' :=
  fun a ha => (h a ha).imp_right fun hkept => ⟨hkept.1, fun ho => hkept.2 (hown a ho)⟩

theorem tidy_refl (heap : Heap T) (b : Buffer) : Tidy heap b.Owns heap b :=
  fun a ha => (em (b.Owns a)).imp_right fun hnot => ⟨ha, hnot⟩

/-- Two new objects, and a buffer of them. -/
theorem tidy_new (heap : Heap T) (v w : T) (newDataAvailable : Bool) :
    Tidy heap (fun _ => False) ((heap.new v).1.new w).1
      { realtimeData := (heap.new v).1.next, nonRealtimeData := heap.next, newDataAvailable } := by
  intro a ha
  rcases Heap.isSome_load_new.mp ha with rfl | ha
  · exact .inl (.inl rfl)
  · rcases Heap.isSome_load_new.mp ha with rfl | ha
    · exact .inl (.inr rfl)
    · exact .inr ⟨ha, id⟩

theorem writeFromNonRT_tidy (ht : Tidy heap own heap' b)
    (h : writeFromNonRT heap' b data = some (heap'', b')) : Tidy heap own heap'' b' := by
  obtain ⟨stored, hstore, he⟩ := Option.bind_eq_some_iff.mp h
  obtain ⟨rfl, rfl⟩ : stored = heap'' ∧ { b with newDataAvailable := true } = b' := by simpa using he
  exact fun a ha => ht a ((Heap.isSome_load_store hstore).mp ha)

theorem copyConstruct_tidy [Inhabited T] {source : Buffer} {uninitialized : Bool}
    (h : copyConstruct heap source uninitialized = some (heap', b')) :
    Tidy heap (fun _ => False) heap' b' := by
  obtain ⟨copied, _, hwrite⟩ := Option.bind_eq_some_iff.mp h
  exact writeFromNonRT_tidy (tidy_new heap default default uninitialized) hwrite

theorem assign_tidy {source : Buffer} (h : assign heap b source = some (heap', b')) :
    Tidy heap b.Owns heap' b' := by
  obtain ⟨copied, _, hwrite⟩ := Option.bind_eq_some_iff.mp h
  exact writeFromNonRT_tidy (tidy_refl heap b) hwrite

theorem initRT_tidy (h : initRT heap b data = some (heap', b')) : Tidy heap b.Owns heap' b' := by
  obtain ⟨heap₁, hstore₁, h⟩ := Option.bind_eq_some_iff.mp h
  obtain ⟨heap₂, hstore₂, he⟩ := Option.bind_eq_some_iff.mp h
  obtain ⟨rfl, rfl⟩ : heap₂ = heap' ∧ b = b' := by simpa using he
  intro a ha
  rw [Heap.isSome_load_store hstore₂, Heap.isSome_load_store hstore₁] at ha
  exact tidy_refl heap b a ha

theorem owns_readFromRT (b : Buffer) (ownsLock : Bool) :
    (readFromRT b ownsLock).1.Owns a ↔ b.Owns a := by
  unfold readFromRT
  split
  · exact or_comm
  · exact Iff.rfl

theorem destroy_alive (h : destroy heap b = some heap') :
    (heap'.load a).isSome ↔ (heap.load a).isSome ∧ ¬ b.Owns a := by
  obtain ⟨heap₁, hdelete₁, hdelete₂⟩ := Option.bind_eq_some_iff.mp h
  rw [Heap.isSome_load_delete hdelete₂, Heap.isSome_load_delete hdelete₁, Buffer.Owns, not_or,
    ← and_assoc]
  exact and_comm

/-- A reset deletes as the destructor does. -/
theorem reset_eq [Inhabited T] (heap : Heap T) (b : Buffer) :
    reset heap b = (destroy heap b).map fun heap =>
      (((heap.new default).1.new default).1,
        { b with realtimeData := (heap.new default).1.next, nonRealtimeData := heap.next }) := by
  unfold reset destroy
  cases heap.delete b.nonRealtimeData with
  | none => rfl
  | some heap₁ =>
    show (heap₁.delete b.realtimeData).bind _ = (heap₁.delete b.realtimeData).map _
    cases heap₁.delete b.realtimeData <;> rfl

theorem reset_tidy [Inhabited T] (h : reset heap b = some (heap', b')) :
    Tidy heap b.Owns heap' b' := by
  rw [reset_eq] at h
  obtain ⟨heap₁, hdestroy, he⟩ := Option.map_eq_some_iff.mp h
  cases he
  intro a ha
  refine (tidy_new heap₁ default default b.newDataAvailable a ha).imp_right fun hkept => ?_
  exact (destroy_alive hdestroy).mp hkept.1

/-! ## Nothing leaks -/

/-- Every object that is alive belongs to a buffer that is alive. -/
def NoLeak (s : State ι T) : Prop := ∀ a, (s.heap.load a).isSome → ∃ i, s.Owned i a

variable {s s' : State ι T} {i : ι}

theorem not_owned (hfree : s.buffers i = none) (a : Nat) : ¬ s.Owned i a := by
  rintro ⟨b, hb, _⟩
  rw [hfree] at hb
  cases hb

theorem owns_of_owned (hb : s.buffers i = some b) (h : s.Owned i a) : b.Owns a := by
  obtain ⟨c, hc, hown⟩ := h
  obtain rfl := Option.some.inj (hb.symm.trans hc)
  exact hown

variable [DecidableEq ι]

/-- The other buffers keep their objects. -/
theorem owned_of_ne {buffer : Option Buffer} {heap : Heap T} {j : ι} (hj : j ≠ i)
    (h : s.Owned j a) :
    ({ heap := heap, buffers := Function.update s.buffers i buffer } : State ι T).Owned j a := by
  obtain ⟨b, hb, hown⟩ := h
  exact ⟨b, (Function.update_of_ne hj _ _).trans hb, hown⟩

theorem NoLeak.set (h : NoLeak s) (ht : Tidy s.heap (s.Owned i) heap' b') :
    NoLeak (s.set i (heap', b')) := by
  intro a ha
  rcases ht a ha with hown | ⟨halive, hnot⟩
  · exact ⟨i, b', Function.update_self i _ _, hown⟩
  · obtain ⟨j, hj⟩ := h a halive
    refine ⟨j, owned_of_ne ?_ hj⟩
    rintro rfl
    exact hnot hj

/-- A call on a live buffer. -/
theorem NoLeak.set_live (h : NoLeak s) (hb : s.buffers i = some b)
    (ht : Tidy s.heap b.Owns heap' b') : NoLeak (s.set i (heap', b')) :=
  h.set (ht.mono fun _ => owns_of_owned hb)

/-- A constructor. -/
theorem NoLeak.set_fresh (h : NoLeak s) (hfree : s.buffers i = none)
    (ht : Tidy s.heap (fun _ => False) heap' b') : NoLeak (s.set i (heap', b')) :=
  h.set (ht.mono (not_owned hfree))

variable [Inhabited T]

theorem NoLeak.call {op : Op ι T} {result : Option T} (h : NoLeak s)
    (hs : RealtimeBuffer.call op s = some (s', result)) : NoLeak s' := by
  cases op with
  | construct i =>
    obtain ⟨hfree, hs⟩ := Option.ite_none_right_eq_some.mp hs
    cases hs
    exact h.set_fresh hfree (tidy_new s.heap default default false)
  | constructFrom i data =>
    obtain ⟨hfree, hs⟩ := Option.ite_none_right_eq_some.mp hs
    cases hs
    exact h.set_fresh hfree (tidy_new s.heap data data false)
  | copyConstruct i source uninitialized =>
    obtain ⟨hfree, hs⟩ := Option.ite_none_right_eq_some.mp hs
    obtain ⟨c, _, hs⟩ := Option.bind_eq_some_iff.mp hs
    obtain ⟨r, hcopy, hs⟩ := Option.bind_eq_some_iff.mp hs
    cases hs
    exact h.set_fresh hfree (copyConstruct_tidy hcopy)
  | assign i source =>
    obtain ⟨b, hb, hs⟩ := Option.bind_eq_some_iff.mp hs
    obtain ⟨c, _, hs⟩ := Option.bind_eq_some_iff.mp hs
    split at hs
    · cases hs
      exact h
    · obtain ⟨r, hassign, hs⟩ := Option.bind_eq_some_iff.mp hs
      cases hs
      exact h.set_live hb (assign_tidy hassign)
  | readFromRT i ownsLock =>
    obtain ⟨b, hb, hs⟩ := Option.bind_eq_some_iff.mp hs
    obtain ⟨data, _, hs⟩ := Option.bind_eq_some_iff.mp hs
    cases hs
    refine h.set_live hb fun a ha => (tidy_refl s.heap b a ha).imp_left ?_
    exact (owns_readFromRT b ownsLock).mpr
  | readFromNonRT i =>
    obtain ⟨b, _, hs⟩ := Option.bind_eq_some_iff.mp hs
    obtain ⟨data, _, hs⟩ := Option.bind_eq_some_iff.mp hs
    cases hs
    exact h
  | writeFromNonRT i data =>
    obtain ⟨b, hb, hs⟩ := Option.bind_eq_some_iff.mp hs
    obtain ⟨r, hwrite, hs⟩ := Option.bind_eq_some_iff.mp hs
    cases hs
    exact h.set_live hb (writeFromNonRT_tidy (tidy_refl s.heap b) hwrite)
  | initRT i data =>
    obtain ⟨b, hb, hs⟩ := Option.bind_eq_some_iff.mp hs
    obtain ⟨r, hinit, hs⟩ := Option.bind_eq_some_iff.mp hs
    cases hs
    exact h.set_live hb (initRT_tidy hinit)
  | reset i =>
    obtain ⟨b, hb, hs⟩ := Option.bind_eq_some_iff.mp hs
    obtain ⟨r, hreset, hs⟩ := Option.bind_eq_some_iff.mp hs
    cases hs
    exact h.set_live hb (reset_tidy hreset)

omit [Inhabited T] in
theorem NoLeak.remove (h : NoLeak s) (hb : s.buffers i = some b)
    (hdestroy : destroy s.heap b = some heap') : NoLeak (s.remove i heap') := by
  intro a ha
  obtain ⟨halive, hnot⟩ := (destroy_alive hdestroy).mp ha
  obtain ⟨j, hj⟩ := h a halive
  refine ⟨j, owned_of_ne ?_ hj⟩
  rintro rfl
  exact hnot (owns_of_owned hb hj)

theorem NoLeak.lifetimeCall {op : LifetimeOp ι T} {result : Option T} (h : NoLeak s)
    (hs : RealtimeBuffer.lifetimeCall op s = some (s', result)) : NoLeak s' := by
  cases op with
  | call op => exact h.call hs
  | destroy i =>
    obtain ⟨b, hb, hs⟩ := Option.bind_eq_some_iff.mp hs
    obtain ⟨heap, hdestroy, hs⟩ := Option.bind_eq_some_iff.mp hs
    cases hs
    exact h.remove hb hdestroy

/-! ## Nothing is deleted twice -/

omit [DecidableEq ι] [Inhabited T] in
/-- The destructor of a buffer with two objects of its own. -/
theorem destroy_of_register {r : Register T} (h : b.register heap = some r)
    (hne : b.realtimeData ≠ b.nonRealtimeData) :
    ∃ heap', destroy heap b = some heap' ∧ ∀ a, ¬ b.Owns a → heap'.load a = heap.load a := by
  obtain ⟨other, hview, hother, _⟩ := register_eq_some.mp h
  obtain ⟨heap₁, hdelete₁, _, hkept₁⟩ := Heap.delete_of_load hother
  obtain ⟨heap₂, hdelete₂, _, hkept₂⟩ := Heap.delete_of_load ((hkept₁ _ hne).trans hview)
  refine ⟨heap₂, by simp [destroy, hdelete₁, hdelete₂], fun a hnot => ?_⟩
  rw [hkept₂ a fun ha => hnot (.inl ha), hkept₁ a fun ha => hnot (.inr ha)]

omit [Inhabited T] in
/-- The other buffers and their registers are as before. -/
theorem WellFormed.remove (h : WellFormed s) (hb : s.buffers i = some b)
    (hkept : ∀ a, ¬ b.Owns a → heap'.load a = s.heap.load a) :
    WellFormed (s.remove i heap') ∧
      (s.remove i heap').registers = Function.update s.registers i none := by
  have hgone : (s.remove i heap').buffers i = none := Function.update_self i _ _
  have hother : ∀ j, j ≠ i → (s.remove i heap').buffers j = s.buffers j :=
    fun j hj => Function.update_of_ne hj _ _
  have hne : ∀ j c, (s.remove i heap').buffers j = some c → j ≠ i := by
    rintro j c hc rfl
    cases hgone.symm.trans hc
  have hregister : ∀ j c, j ≠ i → s.buffers j = some c → c.register heap' = c.register s.heap := by
    intro j c hj hc
    have hnot : ∀ a, c.Owns a → ¬ b.Owns a :=
      fun a hca hba => hj (h.separate j i c b a hc hb hca hba)
    unfold Buffer.register
    rw [hkept _ (hnot _ (.inl rfl)), hkept _ (hnot _ (.inr rfl))]
  refine ⟨⟨fun j c hc => ?_, fun j c hc => ?_, fun j k c d a hc hd => ?_⟩, ?_⟩
  · have hj := hne j c hc
    rw [hother j hj] at hc
    rw [State.remove, hregister j c hj hc]
    exact h.alive j c hc
  · rw [hother j (hne j c hc)] at hc
    exact h.distinct j c hc
  · rw [hother j (hne j c hc)] at hc
    rw [hother k (hne k d hd)] at hd
    exact h.separate j k c d a hc hd
  · funext j
    unfold State.registers
    by_cases hj : j = i
    · subst hj
      rw [hgone, Function.update_self]
      rfl
    · rw [hother j hj, Function.update_of_ne hj]
      cases hc : s.buffers j with
      | none => rfl
      | some c => exact hregister j c hj hc

/-- Reading the registers stays a refinement with the destructor. -/
theorem lifetimeCall_refines :
    Object.Refines (lifetimeCall : Object (LifetimeOp ι T) _ _) Register.lifetimeCall WellFormed
      State.registers where
  invariant op s s' result h hs := by
    cases op with
    | call op => exact call_refines.invariant op s s' result h hs
    | destroy i =>
      obtain ⟨b, hb, hs⟩ := Option.bind_eq_some_iff.mp hs
      obtain ⟨r, hr, _⟩ := exists_register h hb
      obtain ⟨heap', hdestroy, hkept⟩ := destroy_of_register hr (h.distinct i b hb)
      rw [hdestroy] at hs
      cases hs
      exact (h.remove hb hkept).1
  commutes op s h := by
    cases op with
    | call op => exact call_refines.commutes op s h
    | destroy i =>
      cases hb : s.buffers i with
      | none => simp [lifetimeCall, Register.lifetimeCall, hb, registers_eq_none hb]
      | some b =>
        obtain ⟨r, hr, hreg⟩ := exists_register h hb
        obtain ⟨heap', hdestroy, hkept⟩ := destroy_of_register hr (h.distinct i b hb)
        simp [lifetimeCall, Register.lifetimeCall, hb, hreg, hdestroy, (h.remove hb hkept).2]

omit [DecidableEq ι] [Inhabited T] in
theorem alive_of_owned (h : WellFormed s) (hown : s.Owned i a) : (s.heap.load a).isSome := by
  obtain ⟨b, hb, hown⟩ := hown
  obtain ⟨r, hr, _⟩ := exists_register h hb
  obtain ⟨other, hview, hother, _⟩ := register_eq_some.mp hr
  rcases hown with rfl | rfl
  · rw [hview]
    rfl
  · rw [hother]
    rfl

/-- **Buffers manage their memory.**  Every sequence of calls, the destructors of any number of buffers
included, is possible where it is on registers, with the same results: no call uses an object after it
is deleted or deletes one twice.  And the objects that are alive at its end are exactly those of the
buffers that are alive. -/
theorem run_memory (ops : List (LifetimeOp ι T)) :
    (lifetimeCall.run ops State.empty).map (Prod.map State.registers id) =
        Object.run Register.lifetimeCall ops (fun _ => none) ∧
      ∀ s results, lifetimeCall.run ops State.empty = some (s, results) → ∀ a,
        (s.heap.load a).isSome ↔ ∃ i, s.Owned i a := by
  refine ⟨Object.run_map lifetimeCall_refines wellFormed_empty ops, fun s results hrun a => ?_⟩
  have hwell : WellFormed s :=
    Object.run_invariant lifetimeCall_refines.invariant wellFormed_empty hrun
  have hnone : NoLeak (State.empty : State ι T) := fun a ha => by cases ha
  have hleak : NoLeak s :=
    Object.run_invariant (fun _ _ _ _ h hs => h.lifetimeCall hs) hnone hrun
  exact ⟨hleak a, fun ⟨_, hown⟩ => alive_of_owned hwell hown⟩

end RealtimeBuffer
