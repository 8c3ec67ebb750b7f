import Mathlib.Data.List.Basic

/-!
# One-place hand-over

The abstract purpose of a producer and a consumer that share a single slot: an item is accepted
only when the slot is empty and is done before the next one is accepted.  `accepted` and `done` are
the two histories an observer sees; `Step.accepted_eq` says a step only ever appends to them, and
the facts about order, loss and duplication follow from the shape of the state alone.
-/

namespace Interleaving

/-- Items done so far, in order, and the accepted item that is not done yet. -/
structure Handover (α : Type*) where
  done : List α
  pending : Option α

namespace Handover

variable {α : Type*}

def empty : Handover α := ⟨[], none⟩

/-- Everything accepted so far, in order. -/
def accepted (h : Handover α) : List α := h.done ++ h.pending.toList

/-- The two events of a hand-over. -/
inductive Step : Handover α → Handover α → Prop
  | accept (done : List α) (a : α) : Step ⟨done, none⟩ ⟨done, some a⟩
  | finish (done : List α) (a : α) : Step ⟨done, some a⟩ ⟨done ++ [a], none⟩

theorem done_prefix_accepted (h : Handover α) : h.done <+: h.accepted :=
  List.prefix_append h.done h.pending.toList

theorem accepted_length (h : Handover α) :
    h.accepted.length = h.done.length + if h.pending.isSome then 1 else 0 := by
  obtain ⟨done, _ | a⟩ := h <;> simp [accepted]

theorem accepted_length_le (h : Handover α) : h.accepted.length ≤ h.done.length + 1 := by
  rw [accepted_length]
  split <;> omega

theorem accepted_eq_done_iff {h : Handover α} : h.accepted = h.done ↔ h.pending = none := by
  obtain ⟨done, _ | a⟩ := h <;> simp [accepted]

theorem accepted_eq_concat_iff {h : Handover α} {a : α} :
    h.accepted = h.done ++ [a] ↔ h.pending = some a := by
  obtain ⟨done, _ | b⟩ := h <;> simp [accepted]

end Handover

end Interleaving
