import RealtimeTools.Buffer.Model

/-!
# A register with a snapshot view

What a buffer is for: the last value written, and the value the realtime thread last took over.  The
slot that holds the last value depends on `new_data_available_`, and the slots change their roles
with every swap; `Buffer.register` reads the two values off the heap, and every call commutes with it.
-/

open Sequential

namespace RealtimeBuffer

/-! ## The abstract buffer -/

structure Register (T : Type) where
  latest : T
  view : T
  deriving DecidableEq

variable {ι T : Type}

/-- The calls on registers. -/
def Register.call [Inhabited T] [DecidableEq ι] :
    Object (Op ι T) (ι → Option (Register T)) (Option T)
  | .construct i, r =>
      if r i = none then
        some (Function.update r i (some { latest := default, view := default }), none)
      else none
  | .constructFrom i data, r =>
      if r i = none then some (Function.update r i (some { latest := data, view := data }), none)
      else none
  | .copyConstruct i source _, r =>
      if r i = none then
        (r source).map fun c =>
          (Function.update r i (some { latest := c.latest, view := default }), none)
      else none
  | .assign i source, r =>
      (r i).bind fun b => (r source).map fun c =>
        (Function.update r i (some { b with latest := c.latest }), none)
  | .readFromRT i ownsLock, r =>
      (r i).map fun b =>
        if ownsLock then (Function.update r i (some { b with view := b.latest }), some b.latest)
        else (r, some b.view)
  | .readFromNonRT i, r => (r i).map fun b => (r, some b.latest)
  | .writeFromNonRT i data, r =>
      (r i).map fun b => (Function.update r i (some { b with latest := data }), none)
  | .initRT i data, r =>
      (r i).map fun _ => (Function.update r i (some { latest := data, view := data }), none)
  | .reset i, r =>
      (r i).map fun _ => (Function.update r i (some { latest := default, view := default }), none)

/-! ## Reading the register off a buffer -/

def Buffer.Owns (b : Buffer) (a : Nat) : Prop := a = b.realtimeData ∨ a = b.nonRealtimeData

def Buffer.register (heap : Heap T) (b : Buffer) : Option (Register T) :=
  match heap.load b.realtimeData, heap.load b.nonRealtimeData with
  | some view, some other =>
      some { latest := if b.newDataAvailable then other else view, view := view }
  | _, _ => none

def State.registers (s : State ι T) (i : ι) : Option (Register T) :=
  (s.buffers i).bind (Buffer.register s.heap)

/-- Every buffer has two objects of its own. -/
structure WellFormed (s : State ι T) : Prop where
  alive : ∀ i b, s.buffers i = some b → (b.register s.heap).isSome
  distinct : ∀ i b, s.buffers i = some b → b.realtimeData ≠ b.nonRealtimeData
  separate : ∀ i j b c a, s.buffers i = some b → s.buffers j = some c → b.Owns a → c.Owns a → i = j

/-- A call that leaves the buffer `b'` with the register `r`: it touches the objects `own` and new
ones, and `b'` consists of these. -/
structure Leaves (heap : Heap T) (own : Nat → Prop) (heap' : Heap T) (b' : Buffer)
    (r : Register T) : Prop where
  next : heap.next ≤ heap'.next
  kept : ∀ a, a < heap.next → ¬ own a → heap'.load a = heap.load a
  owns : ∀ a, b'.Owns a → own a ∨ heap.next ≤ a
  distinct : b'.realtimeData ≠ b'.nonRealtimeData
  register : b'.register heap' = some r

variable {heap : Heap T} {b c : Buffer} {r : Register T}

theorem register_eq_some : b.register heap = some r ↔
    ∃ other, heap.load b.realtimeData = some r.view ∧ heap.load b.nonRealtimeData = some other ∧
      r.latest = if b.newDataAvailable then other else r.view := by
  unfold Buffer.register
  constructor
  · intro h
    split at h
    · rename_i view other hview hother
      obtain rfl := Option.some.inj h
      exact ⟨other, hview, hother, rfl⟩
    · cases h
  · rintro ⟨other, hview, hother, hlatest⟩
    simp only [hview, hother]
    rw [← hlatest]

theorem load_readFromNonRT (h : b.register heap = some r) :
    heap.load (readFromNonRT b) = some r.latest := by
  obtain ⟨other, hview, hother, hlatest⟩ := register_eq_some.mp h
  unfold readFromNonRT
  split
  · rename_i hnew
    rw [hother, hlatest, if_pos hnew]
  · rename_i hnew
    rw [hview, hlatest, if_neg hnew]

/-! ## One call -/

theorem writeFromNonRT_leaves (data : T) (h : b.register heap = some r)
    (hne : b.realtimeData ≠ b.nonRealtimeData) :
    ∃ heap' b', writeFromNonRT heap b data = some (heap', b') ∧
      Leaves heap b.Owns heap' b' { r with latest := data } := by
  obtain ⟨other, hview, hother, _⟩ := register_eq_some.mp h
  obtain ⟨heap', hstore, hnext, hself, hkept⟩ := Heap.store_of_load (v := data) hother
  refine ⟨heap', { b with newDataAvailable := true }, by simp [writeFromNonRT, hstore], ?_⟩
  exact
    { next := Nat.le_of_eq hnext.symm
      kept := fun a _ hown => hkept a fun ha => hown (.inr ha)
      owns := fun a ha => .inl ha
      distinct := hne
      register := register_eq_some.mpr ⟨data, (hkept _ hne).trans hview, hself, rfl⟩ }

/-- Two objects are allocated one after the other, and nothing else is touched. -/
theorem leaves_new {own : Nat → Prop} {v : T} (heap' : Heap T) (hnext : heap'.next = heap.next)
    (hkept : ∀ a, ¬ own a → heap'.load a = heap.load a) (flag : Bool) :
    Leaves heap own ((heap'.new v).1.new v).1
      { realtimeData := heap'.next + 1, nonRealtimeData := heap'.next, newDataAvailable := flag }
      { latest := v, view := v } where
  next := by simp only [Heap.next_new]; omega
  kept a ha hown := by
    rw [Heap.load_new_of_lt (by simp only [Heap.next_new]; omega), Heap.load_new_of_lt (by omega),
      hkept a hown]
  owns a ha := by
    rcases ha with rfl | rfl
    · exact .inr (by simp only; omega)
    · exact .inr (by simp only; omega)
  distinct := Nat.succ_ne_self heap'.next
  register := by
    refine register_eq_some.mpr ⟨v, ?_, ?_, by simp⟩
    · exact Heap.load_new
    · rw [Heap.load_new_of_lt (by simp), Heap.load_new]

theorem construct_leaves [Inhabited T] :
    Leaves heap (fun _ => False) (construct heap).1 (construct heap).2
      { latest := default, view := default } :=
  leaves_new heap rfl (fun _ _ => rfl) false

theorem constructFrom_leaves (data : T) :
    Leaves heap (fun _ => False) (constructFrom heap data).1 (constructFrom heap data).2
      { latest := data, view := data } :=
  leaves_new heap rfl (fun _ _ => rfl) false

/-- A call on what another one leaves. -/
theorem Leaves.trans {own : Nat → Prop} {heap' heap'' : Heap T} {b' b'' : Buffer}
    {r r' : Register T} (h : Leaves heap own heap' b' r) (h' : Leaves heap' b'.Owns heap'' b'' r') :
    Leaves heap own heap'' b'' r' where
  next := Nat.le_trans h.next h'.next
  kept a ha hown := by
    rw [h'.kept a (Nat.lt_of_lt_of_le ha h.next), h.kept a ha hown]
    intro hb
    rcases h.owns a hb with ho | hle
    · exact hown ho
    · exact absurd ha (Nat.not_lt.mpr hle)
  owns a ha := by
    rcases h'.owns a ha with hb | hle
    · exact h.owns a hb
    · exact .inr (Nat.le_trans h.next hle)
  distinct := h'.distinct
  register := h'.register

theorem copyConstruct_leaves [Inhabited T] (hc : c.register heap = some r) (uninitialized : Bool) :
    ∃ heap' b', copyConstruct heap c uninitialized = some (heap', b') ∧
      Leaves heap (fun _ => False) heap' b' { latest := r.latest, view := default } := by
  have hnew : Leaves heap (fun _ => False) _ _ { latest := default, view := default } :=
    leaves_new (v := default) heap rfl (fun _ _ => rfl) uninitialized
  -- The source is older than the two new objects.
  have hload : (((heap.new default).1).new default).1.load (readFromNonRT c) = some r.latest := by
    have hsource := load_readFromNonRT hc
    rw [hnew.kept _ (Heap.lt_next (by rw [hsource]; rfl)) id, hsource]
  obtain ⟨heap', b', hwrite, hleaves⟩ :=
    writeFromNonRT_leaves r.latest hnew.register hnew.distinct
  refine ⟨heap', b', ?_, hnew.trans hleaves⟩
  simp only [copyConstruct, hload, Option.bind_eq_bind, Option.bind_some]
  exact hwrite

theorem assign_leaves (h : b.register heap = some r) (hne : b.realtimeData ≠ b.nonRealtimeData)
    {r' : Register T} (hc : c.register heap = some r') :
    ∃ heap' b', assign heap b c = some (heap', b') ∧
      Leaves heap b.Owns heap' b' { r with latest := r'.latest } := by
  obtain ⟨heap', b', hwrite, hleaves⟩ := writeFromNonRT_leaves r'.latest h hne
  exact ⟨heap', b', by simp [assign, load_readFromNonRT hc, hwrite], hleaves⟩

theorem initRT_leaves (data : T) (h : b.register heap = some r)
    (hne : b.realtimeData ≠ b.nonRealtimeData) :
    ∃ heap' b', initRT heap b data = some (heap', b') ∧
      Leaves heap b.Owns heap' b' { latest := data, view := data } := by
  obtain ⟨other, hview, hother, _⟩ := register_eq_some.mp h
  obtain ⟨heap₁, hstore₁, hnext₁, hself₁, hkept₁⟩ := Heap.store_of_load (v := data) hother
  have hview₁ : heap₁.load b.realtimeData = some r.view := (hkept₁ _ hne).trans hview
  obtain ⟨heap₂, hstore₂, hnext₂, hself₂, hkept₂⟩ := Heap.store_of_load (v := data) hview₁
  refine ⟨heap₂, b, by simp [initRT, hstore₁, hstore₂], ?_⟩
  exact
    { next := Nat.le_of_eq (hnext₂.trans hnext₁).symm
      kept := fun a _ hown => by
        rw [hkept₂ a fun ha => hown (.inl ha), hkept₁ a fun ha => hown (.inr ha)]
      owns := fun a ha => .inl ha
      distinct := hne
      register := register_eq_some.mpr
        ⟨data, hself₂, (hkept₂ _ hne.symm).trans hself₁, (ite_self data).symm⟩ }

theorem reset_leaves [Inhabited T] (h : b.register heap = some r)
    (hne : b.realtimeData ≠ b.nonRealtimeData) :
    ∃ heap' b', reset heap b = some (heap', b') ∧
      Leaves heap b.Owns heap' b' { latest := default, view := default } := by
  obtain ⟨other, hview, hother, _⟩ := register_eq_some.mp h
  obtain ⟨heap₁, hdelete₁, hnext₁, hkept₁⟩ := Heap.delete_of_load hother
  have hview₁ : heap₁.load b.realtimeData = some r.view := (hkept₁ _ hne).trans hview
  obtain ⟨heap₂, hdelete₂, hnext₂, hkept₂⟩ := Heap.delete_of_load hview₁
  refine ⟨_, _, ?_, leaves_new heap₂ (hnext₂.trans hnext₁) ?_ b.newDataAvailable⟩
  · simp [reset, hdelete₁, hdelete₂]
  · intro a hown
    rw [hkept₂ a fun ha => hown (.inl ha), hkept₁ a fun ha => hown (.inr ha)]

/-- A buffer that keeps its objects keeps its register. -/
theorem leaves_refl (h : b.register heap = some r) (hne : b.realtimeData ≠ b.nonRealtimeData) :
    Leaves heap b.Owns heap b r where
  next := Nat.le_refl _
  kept _ _ _ := rfl
  owns _ ha := .inl ha
  distinct := hne
  register := h

/-- The pointers swap only where the other slot holds the last value. -/
theorem readFromRT_leaves (h : b.register heap = some r)
    (hne : b.realtimeData ≠ b.nonRealtimeData) (ownsLock : Bool) :
    Leaves heap b.Owns heap (readFromRT b ownsLock).1
        { r with view := if ownsLock then r.latest else r.view } ∧
      heap.load (readFromRT b ownsLock).2 = some (if ownsLock then r.latest else r.view) := by
  obtain ⟨other, hview, hother, hlatest⟩ := register_eq_some.mp h
  unfold readFromRT
  cases hswap : ownsLock && b.newDataAvailable with
  | true =>
    obtain ⟨rfl, hnew⟩ : ownsLock = true ∧ b.newDataAvailable = true := by simpa using hswap
    rw [if_pos hnew] at hlatest
    subst hlatest
    refine ⟨⟨Nat.le_refl _, fun _ _ _ => rfl, fun a ha => .inl ha.symm, hne.symm, ?_⟩, hother⟩
    exact register_eq_some.mpr ⟨r.view, hother, hview, rfl⟩
  | false =>
    -- With the mutex and no new data the two values agree.
    have hsame : (if ownsLock then r.latest else r.view) = r.view := by
      cases ownsLock with
      | false => rfl
      | true =>
        have hold : b.newDataAvailable = false := by simpa using hswap
        simpa [hold] using hlatest
    rw [hsame]
    exact ⟨leaves_refl h hne, hview⟩

/-! ## Any number of buffers -/

variable {s : State ι T} {i : ι}

/-- The objects of the buffer with this name. -/
def State.Owned (s : State ι T) (i : ι) (a : Nat) : Prop := ∃ b, s.buffers i = some b ∧ b.Owns a

theorem lt_next_of_owns (h : WellFormed s) {b : Buffer} {a : Nat} (hb : s.buffers i = some b)
    (ha : b.Owns a) : a < s.heap.next := by
  obtain ⟨r, hr⟩ := Option.isSome_iff_exists.mp (h.alive i b hb)
  obtain ⟨other, hview, hother, _⟩ := register_eq_some.mp hr
  rcases ha with rfl | rfl
  · exact Heap.lt_next (by rw [hview]; rfl)
  · exact Heap.lt_next (by rw [hother]; rfl)

variable [DecidableEq ι]

/-- What a call on one buffer leaves behind is well-formed, and the other registers are as before. -/
theorem WellFormed.set (h : WellFormed s) {heap' : Heap T} {b' : Buffer}
    (hl : Leaves s.heap (s.Owned i) heap' b' r) :
    WellFormed (s.set i (heap', b')) ∧
      (s.set i (heap', b')).registers = Function.update s.registers i (some r) := by
  -- The objects of the other buffers are neither of this one nor new.
  have hkept : ∀ j c a, j ≠ i → s.buffers j = some c → c.Owns a →
      ¬ b'.Owns a ∧ heap'.load a = s.heap.load a := by
    intro j c a hj hc ha
    have hlt := lt_next_of_owns h hc ha
    have hnot : ¬ s.Owned i a := fun ⟨b, hb, hown⟩ => hj (h.separate j i c b a hc hb ha hown)
    refine ⟨fun hb' => ?_, hl.kept a hlt hnot⟩
    rcases hl.owns a hb' with ho | hle
    · exact hnot ho
    · exact absurd hlt (Nat.not_lt.mpr hle)
  have hregister : ∀ j c, j ≠ i → s.buffers j = some c → c.register heap' = c.register s.heap := by
    intro j c hj hc
    unfold Buffer.register
    rw [(hkept j c _ hj hc (.inl rfl)).2, (hkept j c _ hj hc (.inr rfl)).2]
  have hself : (s.set i (heap', b')).buffers i = some b' := Function.update_self i _ _
  have hother : ∀ j, j ≠ i → (s.set i (heap', b')).buffers j = s.buffers j :=
    fun j hj => Function.update_of_ne hj _ _
  refine ⟨⟨?_, ?_, ?_⟩, ?_⟩
  · intro j c hc
    by_cases hj : j = i
    · subst hj
      obtain rfl := Option.some.inj (hself.symm.trans hc)
      exact Option.isSome_iff_exists.mpr ⟨r, hl.register⟩
    · rw [hother j hj] at hc
      rw [State.set, hregister j c hj hc]
      exact h.alive j c hc
  · intro j c hc
    by_cases hj : j = i
    · subst hj
      obtain rfl := Option.some.inj (hself.symm.trans hc)
      exact hl.distinct
    · rw [hother j hj] at hc
      exact h.distinct j c hc
  · intro j k c d a hc hd hca hda
    by_cases hj : j = i
    · subst hj
      obtain rfl := Option.some.inj (hself.symm.trans hc)
      by_contra hjk
      rw [hother k (Ne.symm hjk)] at hd
      exact (hkept k d a (Ne.symm hjk) hd hda).1 hca
    · rw [hother j hj] at hc
      by_cases hk : k = i
      · subst hk
        obtain rfl := Option.some.inj (hself.symm.trans hd)
        exact absurd hda (hkept j c a hj hc hca).1
      · rw [hother k hk] at hd
        exact h.separate j k c d a hc hd hca hda
  · funext j
    unfold State.registers
    by_cases hj : j = i
    · subst hj
      rw [hself, Function.update_self]
      exact hl.register
    · rw [hother j hj, Function.update_of_ne hj]
      cases hc : s.buffers j with
      | none => rfl
      | some c => exact hregister j c hj hc

theorem Leaves.mono {own own' : Nat → Prop} {heap' : Heap T} {b' : Buffer}
    (h : Leaves heap own heap' b' r) (hown : ∀ a, own a → own' a) : Leaves heap own' heap' b' r where
  next := h.next
  kept a ha hnot := h.kept a ha fun ho => hnot (hown a ho)
  owns a ha := (h.owns a ha).imp (hown a) id
  distinct := h.distinct
  register := h.register

omit [DecidableEq ι] in
/-- The objects a call on a live buffer touches are the buffer's. -/
theorem Leaves.owned {heap' : Heap T} {b' : Buffer} (hb : s.buffers i = some b)
    (h : Leaves s.heap b.Owns heap' b' r) : Leaves s.heap (s.Owned i) heap' b' r :=
  h.mono fun _ ha => ⟨b, hb, ha⟩

omit [DecidableEq ι] in
theorem Leaves.fresh {heap' : Heap T} {b' : Buffer}
    (h : Leaves s.heap (fun _ => False) heap' b' r) : Leaves s.heap (s.Owned i) heap' b' r :=
  h.mono fun _ ha => ha.elim

omit [DecidableEq ι] in
theorem registers_eq_none (hb : s.buffers i = none) : s.registers i = none := by
  rw [State.registers, hb]
  rfl

omit [DecidableEq ι] in
theorem exists_register (h : WellFormed s) (hb : s.buffers i = some b) :
    ∃ r, b.register s.heap = some r ∧ s.registers i = some r := by
  obtain ⟨r, hr⟩ := Option.isSome_iff_exists.mp (h.alive i b hb)
  exact ⟨r, hr, by rw [State.registers, hb]; exact hr⟩

variable [Inhabited T]

/-- The call and its abstract counterpart do the same, and what is left is well-formed. -/
structure Matches (op : Op ι T) (s : State ι T) : Prop where
  invariant : ∀ s' result, call op s = some (s', result) → WellFormed s'
  commutes : (call op s).map (Prod.map State.registers id) = Register.call op s.registers

variable {op : Op ι T}

theorem matches_none (hc : call op s = none) (ha : Register.call op s.registers = none) :
    Matches op s where
  invariant s' result hs := by rw [hc] at hs; cases hs
  commutes := by rw [hc, ha]; rfl

theorem matches_same (result : Option T) (h : WellFormed s) (hc : call op s = some (s, result))
    (ha : Register.call op s.registers = some (s.registers, result)) : Matches op s where
  invariant s' result' hs := by
    obtain ⟨rfl, rfl⟩ : s = s' ∧ result = result' := by simpa [hc] using hs
    exact h
  commutes := by rw [hc, ha]; rfl

theorem matches_set (i : ι) (result : Option T) {heap' : Heap T} {b' : Buffer} (h : WellFormed s)
    (hl : Leaves s.heap (s.Owned i) heap' b' r)
    (hc : call op s = some (s.set i (heap', b'), result))
    (ha : Register.call op s.registers = some (Function.update s.registers i (some r), result)) :
    Matches op s where
  invariant s' result' hs := by
    obtain ⟨rfl, rfl⟩ : s.set i (heap', b') = s' ∧ result = result' := by simpa [hc] using hs
    exact (h.set hl).1
  commutes := by
    rw [hc, ha, ← (h.set hl).2]
    rfl

/-- A constructor needs a name that is free. -/
theorem matches_of_free (i : ι) (h : WellFormed s)
    (hc : ∀ b, s.buffers i = some b → call op s = none)
    (ha : ∀ r, s.registers i = some r → Register.call op s.registers = none)
    (hfree : s.buffers i = none → s.registers i = none → Matches op s) : Matches op s := by
  cases hb : s.buffers i with
  | none => exact hfree hb (registers_eq_none hb)
  | some b =>
    obtain ⟨r, _, hreg⟩ := exists_register h hb
    exact matches_none (hc b hb) (ha r hreg)

/-- Every other call needs a live buffer. -/
theorem matches_of_live (i : ι) (h : WellFormed s)
    (hc : s.buffers i = none → call op s = none)
    (ha : s.registers i = none → Register.call op s.registers = none)
    (hlive : ∀ b r, s.buffers i = some b → b.register s.heap = some r →
      s.registers i = some r → Matches op s) : Matches op s := by
  cases hb : s.buffers i with
  | none => exact matches_none (hc hb) (ha (registers_eq_none hb))
  | some b =>
    obtain ⟨r, hr, hreg⟩ := exists_register h hb
    exact hlive b r hb hr hreg

theorem call_matches (h : WellFormed s) (op : Op ι T) : Matches op s := by
  cases op with
  | construct i =>
    refine matches_of_free i h (fun b hb => by simp [call, hb])
      (fun r hreg => by simp [Register.call, hreg]) ?_
    intro hb hreg
    exact matches_set i none h construct_leaves.fresh (by simp [call, hb])
      (by simp [Register.call, hreg])
  | constructFrom i data =>
    refine matches_of_free i h (fun b hb => by simp [call, hb])
      (fun r hreg => by simp [Register.call, hreg]) ?_
    intro hb hreg
    exact matches_set i none h (constructFrom_leaves data).fresh (by simp [call, hb])
      (by simp [Register.call, hreg])
  | copyConstruct i source uninitialized =>
    refine matches_of_free i h (fun b hb => by simp [call, hb])
      (fun r hreg => by simp [Register.call, hreg]) ?_
    intro hb hreg
    refine matches_of_live source h (fun hc => by simp [call, hb, hc])
      (fun hreg' => by simp [Register.call, hreg, hreg']) ?_
    intro c r hc hr hreg'
    obtain ⟨heap', b', hcopy, hl⟩ := copyConstruct_leaves hr uninitialized
    exact matches_set i none h hl.fresh (by simp [call, hb, hc, hcopy])
      (by simp [Register.call, hreg, hreg'])
  | assign i source =>
    refine matches_of_live i h (fun hb => by simp [call, hb])
      (fun hreg => by simp [Register.call, hreg]) ?_
    intro b r hb hr hreg
    refine matches_of_live source h (fun hc => by simp [call, hb, hc])
      (fun hreg' => by simp [Register.call, hreg, hreg']) ?_
    intro c r' hc hr' hreg'
    by_cases hself : i = source
    · subst hself
      obtain rfl := Option.some.inj (hreg.symm.trans hreg')
      refine matches_same none h (by simp [call, hb]) ?_
      simp only [Register.call, hreg, Option.bind_some, Option.map_some]
      rw [← hreg, Function.update_eq_self]
    · obtain ⟨heap', b', hassign, hl⟩ := assign_leaves hr (h.distinct i b hb) hr'
      exact matches_set i none h (hl.owned hb) (by simp [call, hb, hc, hself, hassign])
        (by simp [Register.call, hreg, hreg'])
  | readFromRT i ownsLock =>
    refine matches_of_live i h (fun hb => by simp [call, hb])
      (fun hreg => by simp [Register.call, hreg]) ?_
    intro b r hb hr hreg
    obtain ⟨hl, hload⟩ := readFromRT_leaves hr (h.distinct i b hb) ownsLock
    refine matches_set i (some (if ownsLock then r.latest else r.view)) h (hl.owned hb)
      (by simp [call, hb, hload]) ?_
    cases ownsLock with
    | true => simp [Register.call, hreg]
    | false =>
      simp only [Register.call, hreg, Option.map_some, Bool.false_eq_true, if_false]
      rw [← hreg, Function.update_eq_self]
  | readFromNonRT i =>
    refine matches_of_live i h (fun hb => by simp [call, hb])
      (fun hreg => by simp [Register.call, hreg]) ?_
    intro b r hb hr hreg
    exact matches_same (some r.latest) h (by simp [call, hb, load_readFromNonRT hr])
      (by simp [Register.call, hreg])
  | writeFromNonRT i data =>
    refine matches_of_live i h (fun hb => by simp [call, hb])
      (fun hreg => by simp [Register.call, hreg]) ?_
    intro b r hb hr hreg
    obtain ⟨heap', b', hwrite, hl⟩ := writeFromNonRT_leaves data hr (h.distinct i b hb)
    exact matches_set i none h (hl.owned hb) (by simp [call, hb, hwrite])
      (by simp [Register.call, hreg])
  | initRT i data =>
    refine matches_of_live i h (fun hb => by simp [call, hb])
      (fun hreg => by simp [Register.call, hreg]) ?_
    intro b r hb hr hreg
    obtain ⟨heap', b', hinit, hl⟩ := initRT_leaves data hr (h.distinct i b hb)
    exact matches_set i none h (hl.owned hb) (by simp [call, hb, hinit])
      (by simp [Register.call, hreg])
  | reset i =>
    refine matches_of_live i h (fun hb => by simp [call, hb])
      (fun hreg => by simp [Register.call, hreg]) ?_
    intro b r hb hr hreg
    obtain ⟨heap', b', hreset, hl⟩ := reset_leaves hr (h.distinct i b hb)
    exact matches_set i none h (hl.owned hb) (by simp [call, hb, hreset])
      (by simp [Register.call, hreg])

/-- Reading the registers is a refinement. -/
theorem call_refines :
    Object.Refines (call : Object (Op ι T) _ _) Register.call WellFormed State.registers where
  invariant op _ s' result h := (call_matches h op).invariant s' result
  commutes op _ h := (call_matches h op).commutes

omit [DecidableEq ι] [Inhabited T] in
theorem wellFormed_empty : WellFormed (State.empty : State ι T) where
  alive _ _ hb := nomatch hb
  distinct _ _ hb := nomatch hb
  separate _ _ _ _ _ hb := nomatch hb

/-- **A buffer is a register with a snapshot view.**  Every sequence of calls, on any number of
buffers, is possible where it is on registers, ends with the same registers and returns the same
results; in particular no call uses a deleted object. -/
theorem run_registers (ops : List (Op ι T)) :
    (call.run ops State.empty).map (Prod.map State.registers id) =
      Object.run Register.call ops fun _ => none :=
  Object.run_map call_refines wellFormed_empty ops

end RealtimeBuffer
