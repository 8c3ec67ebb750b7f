import Mathlib.Logic.Function.Basic

/-!
# A heap

`new`, `delete`, and loads and stores through pointers, which are addresses.  One that dangles gives
`none`, so a program for which every access succeeds is one without a use after `delete`.  An address
is never handed out twice.
-/

namespace Sequential

/-- The objects that are alive; `next` is the first address that has not been handed out. -/
structure Heap (α : Type*) where
  cells : Nat → Option α
  next : Nat
  unused : ∀ a, next ≤ a → cells a = none

namespace Heap

variable {α : Type*} {heap heap' : Heap α} {a b : Nat} {v w : α}

def empty : Heap α where
  cells _ := none
  next := 0
  unused _ _ := rfl

def load (heap : Heap α) (a : Nat) : Option α := heap.cells a

/-- `new T(v)`. -/
def new (heap : Heap α) (v : α) : Heap α × Nat :=
  ({ cells := Function.update heap.cells heap.next (some v)
     next := heap.next + 1
     unused := fun a ha => by
       rw [Function.update_of_ne (Nat.ne_of_gt ha)]
       exact heap.unused a (Nat.le_of_succ_le ha) }, heap.next)

/-- Every object is below `next`. -/
theorem lt_next (h : (heap.load a).isSome) : a < heap.next := by
  by_contra hle
  rw [load, heap.unused a (Nat.le_of_not_lt hle)] at h
  cases h

/-- `*a = v`. -/
def store (heap : Heap α) (a : Nat) (v : α) : Option (Heap α) :=
  if h : (heap.load a).isSome then
    some
      { cells := Function.update heap.cells a (some v)
        next := heap.next
        unused := fun b hb => by
          rw [Function.update_of_ne (Nat.ne_of_gt (Nat.lt_of_lt_of_le (lt_next h) hb))]
          exact heap.unused b hb }
  else none

/-- `delete a`. -/
def delete (heap : Heap α) (a : Nat) : Option (Heap α) :=
  if (heap.load a).isSome then
    some
      { cells := Function.update heap.cells a none
        next := heap.next
        unused := fun b hb => by
          rw [Function.update_apply, heap.unused b hb, ite_self] }
  else none

/-! ## What the operations do -/

@[simp] theorem new_snd : (heap.new v).2 = heap.next := rfl

@[simp] theorem next_new : (heap.new v).1.next = heap.next + 1 := rfl

@[simp] theorem load_new : (heap.new v).1.load heap.next = some v := by
  simp [load, new]

theorem load_new_of_lt (ha : a < heap.next) : (heap.new v).1.load a = heap.load a := by
  simp [load, new, Nat.ne_of_lt ha]

theorem store_of_load (h : heap.load a = some w) :
    ∃ heap', heap.store a v = some heap' ∧ heap'.next = heap.next ∧ heap'.load a = some v ∧
      ∀ b, b ≠ a → heap'.load b = heap.load b := by
  have ha : (heap.load a).isSome := by rw [h]; rfl
  exact ⟨_, dif_pos ha, rfl, Function.update_self a _ _, fun b hb => Function.update_of_ne hb _ _⟩

theorem delete_of_load (h : heap.load a = some w) :
    ∃ heap', heap.delete a = some heap' ∧ heap'.next = heap.next ∧
      ∀ b, b ≠ a → heap'.load b = heap.load b := by
  have ha : (heap.load a).isSome := by rw [h]; rfl
  exact ⟨_, if_pos ha, rfl, fun b hb => Function.update_of_ne hb _ _⟩

/-! ## Which objects are alive -/

theorem isSome_load_new : ((heap.new v).1.load a).isSome ↔ a = heap.next ∨ (heap.load a).isSome := by
  by_cases ha : a = heap.next
  · subst ha
    simp
  · simp [load, new, ha]

theorem isSome_load_store (h : heap.store a v = some heap') :
    (heap'.load b).isSome ↔ (heap.load b).isSome := by
  unfold store at h
  split at h
  · rename_i ha
    obtain rfl := Option.some.inj h
    by_cases hb : b = a
    · subst hb
      exact iff_of_true (by simp [load]) ha
    · simp [load, hb]
  · cases h

theorem isSome_load_delete (h : heap.delete a = some heap') :
    (heap'.load b).isSome ↔ b ≠ a ∧ (heap.load b).isSome := by
  unfold delete at h
  split at h
  · obtain rfl := Option.some.inj h
    by_cases hb : b = a <;> simp [load, hb]
  · cases h

end Heap

end Sequential
