import Mathlib.Data.List.DropRight

/-!
# Bounded queues

A first-in first-out queue that never holds more than `c` elements, oldest first.  A push fails
exactly when the queue is full, a pop exactly when it is empty; `pushDropOldest` makes room by
removing the oldest element.
-/

namespace Sequential

/-- At most `c` elements, oldest first. -/
@[ext] structure Fifo (α : Type*) (c : ℕ) where
  items : List α
  bound : items.length ≤ c
  deriving DecidableEq

namespace Fifo

variable {α : Type*} {c : ℕ}

def empty : Fifo α c := ⟨[], Nat.zero_le c⟩

def IsFull (q : Fifo α c) : Prop := q.items.length = c

instance (q : Fifo α c) : Decidable q.IsFull := inferInstanceAs (Decidable (_ = _))

/-- Appends `x`, unless the queue is full. -/
def push (q : Fifo α c) (x : α) : Option (Fifo α c) :=
  if h : q.items.length < c then
    some ⟨q.items ++ [x], by rw [List.length_append]; exact h⟩
  else none

/-- Removes the oldest element, unless the queue is empty. -/
def pop : Fifo α c → Option (α × Fifo α c)
  | ⟨[], _⟩ => none
  | ⟨x :: items, bound⟩ => some (x, ⟨items, Nat.le_of_succ_le bound⟩)

/-- Appends `x` if there is room, and otherwise removes the oldest element and appends `x`. -/
def pushDropOldest (q : Fifo α c) (x : α) : Fifo α c :=
  match q.push x with
  | some q' => q'
  | none =>
      match q.pop with
      | some (_, q') => (q'.push x).getD q'
      | none => q

/-- Visits the elements from the oldest to the newest and removes them all; with how many there were. -/
def consumeAll {β : Type*} (q : Fifo α c) (visit : β → α → β) (b : β) : β × ℕ × Fifo α c :=
  (q.items.foldl visit b, q.items.length, empty)

variable {q q' : Fifo α c} {x y : α}

theorem length_le_iff_isFull : c ≤ q.items.length ↔ q.IsFull :=
  ⟨fun h => Nat.le_antisymm q.bound h, fun h => Nat.le_of_eq h.symm⟩

theorem push_eq_none_iff : q.push x = none ↔ q.IsFull := by
  unfold push
  split
  · rename_i h
    exact iff_of_false (by simp) (Nat.ne_of_lt h)
  · rename_i h
    exact iff_of_true rfl (length_le_iff_isFull.mp (Nat.not_lt.mp h))

theorem items_of_push (h : q.push x = some q') : q'.items = q.items ++ [x] := by
  unfold push at h
  split at h
  · obtain rfl := Option.some.inj h
    rfl
  · cases h

theorem exists_push (h : ¬ q.IsFull) : ∃ q', q.push x = some q' :=
  Option.ne_none_iff_exists'.mp fun hnone => h (push_eq_none_iff.mp hnone)

theorem pop_eq_none_iff : q.pop = none ↔ q.items = [] := by
  obtain ⟨items, bound⟩ := q
  cases items with
  | nil => exact iff_of_true rfl rfl
  | cons y items => exact iff_of_false (by simp [pop]) (by simp)

theorem pop_eq_some_iff : q.pop = some (y, q') ↔ q.items = y :: q'.items := by
  obtain ⟨items, bound⟩ := q
  obtain ⟨items', bound'⟩ := q'
  cases items with
  | nil => exact iff_of_false (by simp [pop]) (by simp)
  | cons z items => simp [pop]

/-- What has been taken from a full queue leaves room for one element. -/
theorem not_isFull_of_cons (h : q'.items = y :: q.items) : ¬ q.IsFull := by
  intro hfull
  have hlength : q'.items.length = q.items.length + 1 := by rw [h, List.length_cons]
  have hbound := q'.bound
  unfold IsFull at hfull
  omega

theorem pushDropOldest_of_push (h : q.push x = some q') : q.pushDropOldest x = q' := by
  unfold pushDropOldest
  rw [h]

theorem pushDropOldest_of_isFull (h : q.IsFull) (hq : q.items = y :: q'.items) :
    (q.pushDropOldest x).items = q'.items ++ [x] := by
  obtain ⟨q'', hq''⟩ := exists_push (q := q') (x := x) (not_isFull_of_cons hq)
  unfold pushDropOldest
  rw [push_eq_none_iff.mpr h, pop_eq_some_iff.mpr hq]
  simp only [hq'', Option.getD_some]
  exact items_of_push hq''

/-! ## The last elements -/

theorem rtake_eq_self {l : List α} (h : l.length ≤ c) : l.rtake c = l := by
  unfold List.rtake
  rw [Nat.sub_eq_zero_of_le h, List.drop_zero]

/-- What has been cut off once makes no difference to a later cut. -/
theorem rtake_rtake_append (l xs : List α) : (l.rtake c ++ xs).rtake c = (l ++ xs).rtake c := by
  by_cases h : l.length ≤ c
  · rw [rtake_eq_self h]
  · have hkept : (l.rtake c).length = c := by
      unfold List.rtake
      rw [List.length_drop]
      omega
    unfold List.rtake at hkept ⊢
    rw [List.length_append, hkept, List.length_append, ← List.drop_append_of_le_length (by omega),
      List.drop_drop]
    congr 1
    omega

/-- A queue that drops its oldest elements holds the last ones. -/
theorem items_pushDropOldest (hc : 0 < c) : (q.pushDropOldest x).items = (q.items ++ [x]).rtake c := by
  by_cases hfull : q.IsFull
  · obtain ⟨y, rest, hitems⟩ : ∃ y rest, q.items = y :: rest := by
      cases hq : q.items with
      | nil =>
        unfold IsFull at hfull
        rw [hq] at hfull
        exact absurd hfull (Nat.ne_of_lt hc)
      | cons y rest => exact ⟨y, rest, rfl⟩
    have hlength : rest.length + 1 = c := by
      have hfull : q.items.length = c := hfull
      rwa [hitems, List.length_cons] at hfull
    have hbound : rest.length ≤ c := by omega
    have hpushed : (q.pushDropOldest x).items = rest ++ [x] :=
      @pushDropOldest_of_isFull _ _ _ ⟨rest, hbound⟩ _ _ hfull hitems
    rw [hpushed, hitems]
    unfold List.rtake
    rw [List.length_append, List.length_cons, List.length_singleton,
      show rest.length + 1 + 1 - c = 1 by omega]
    rfl
  · obtain ⟨q', hq'⟩ := exists_push hfull (x := x)
    rw [pushDropOldest_of_push hq', items_of_push hq', rtake_eq_self]
    rw [← items_of_push hq']
    exact q'.bound

theorem items_foldl_pushDropOldest (hc : 0 < c) (xs : List α) :
    (xs.foldl pushDropOldest q).items = (q.items ++ xs).rtake c := by
  induction xs generalizing q with
  | nil => rw [List.foldl_nil, List.append_nil, rtake_eq_self q.bound]
  | cons x xs ih =>
    rw [List.foldl_cons, ih, items_pushDropOldest hc, rtake_rtake_append, List.append_assoc]
    rfl

end Fifo

end Sequential
