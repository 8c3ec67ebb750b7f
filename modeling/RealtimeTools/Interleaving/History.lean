import Mathlib.Data.List.Basic
import Mathlib.Data.List.DropRight

/-!
# Histories

A state may carry the list of the events seen so far.  A property of such a history is usually that
every event is justified by what came before it, and is kept if each new event is.  `LastEvent` cuts
a history at the last event of a kind.
-/

namespace Interleaving

variable {ε : Type*} {P : List ε → ε → Prop}

/-- Where a longer history can be cut: at the new event, or where it could be cut before. -/
theorem split_concat {history before after : List ε} {e e' : ε}
    (h : history ++ [e'] = before ++ e :: after) :
    (before = history ∧ e = e' ∧ after = []) ∨
      ∃ earlier, after = earlier ++ [e'] ∧ history = before ++ e :: earlier := by
  rcases List.eq_nil_or_concat after with rfl | ⟨earlier, last, rfl⟩
  · obtain ⟨rfl, he⟩ := List.append_inj' h rfl
    exact .inl ⟨rfl, (List.singleton_inj.mp he).symm, rfl⟩
  · have hcut : history ++ [e'] = (before ++ e :: earlier) ++ [last] := by
      rw [h, List.concat_eq_append, List.append_assoc, List.cons_append]
    obtain ⟨hhistory, hlast⟩ := List.append_inj' hcut rfl
    obtain rfl := List.singleton_inj.mp hlast
    exact .inr ⟨earlier, List.concat_eq_append, hhistory⟩

/-- What a projection of the events adds with one more event. -/
theorem filterMap_concat {α : Type*} (f : ε → Option α) (history : List ε) (e : ε) :
    (history ++ [e]).filterMap f = history.filterMap f ++ (f e).toList := by
  rw [List.filterMap_append, List.filterMap_cons, List.filterMap_nil]
  cases f e <;> rfl

/-- Every event of the history satisfies `P` together with the events before it. -/
def Justified (P : List ε → ε → Prop) (history : List ε) : Prop :=
  ∀ before e after, history = before ++ e :: after → P before e

theorem justified_nil : Justified P [] := by
  intro before e after h
  simp at h

theorem justified_concat {history : List ε} {e : ε} :
    Justified P (history ++ [e]) ↔ Justified P history ∧ P history e := by
  constructor
  · intro h
    refine ⟨fun before e' after heq => ?_, h history e [] rfl⟩
    exact h before e' (after ++ [e]) (by rw [heq, List.append_assoc, List.cons_append])
  · rintro ⟨hhistory, hlast⟩ before e' after heq
    rcases split_concat heq with ⟨rfl, rfl, _⟩ | ⟨earlier, _, heq⟩
    · exact hlast
    · exact hhistory before e' earlier heq

theorem Justified.step {history history' : List ε} (h : Justified P history)
    (hh : history' = history ∨ ∃ e, history' = history ++ [e])
    (he : ∀ e, history' = history ++ [e] → P history e) : Justified P history' := by
  rcases hh with rfl | ⟨e, rfl⟩
  · exact h
  · exact justified_concat.mpr ⟨h, he e rfl⟩

/-- `e` is the last event of the history with `p`; it comes after `before`, and `since` follows. -/
structure LastEvent (p : ε → Prop) (history before : List ε) (e : ε) (since : List ε) : Prop where
  split : history = before ++ e :: since
  holds : p e
  last : ∀ e' ∈ since, ¬ p e'

namespace LastEvent

variable {p : ε → Prop} {history before since : List ε} {e e' : ε}

theorem concat_self (he : p e) : LastEvent p (history ++ [e]) history e [] :=
  ⟨rfl, he, fun _ hmem => nomatch hmem⟩

theorem concat (h : LastEvent p history before e since) (he : ¬ p e') :
    LastEvent p (history ++ [e']) before e (since ++ [e']) where
  split := by rw [h.split, List.append_assoc, List.cons_append]
  holds := h.holds
  last := by
    intro e₁ hmem
    rcases List.mem_append.mp hmem with hmem | hmem
    · exact h.last e₁ hmem
    · rwa [List.mem_singleton.mp hmem]

/-- The last event of a longer history is the new one, or was the last one before. -/
theorem of_concat (h : LastEvent p (history ++ [e']) before e since) :
    (before = history ∧ e = e' ∧ since = []) ∨
      ∃ earlier, since = earlier ++ [e'] ∧ LastEvent p history before e earlier := by
  rcases split_concat h.split with hnew | ⟨earlier, rfl, hhistory⟩
  · exact .inl hnew
  · exact .inr ⟨earlier, rfl, hhistory, h.holds, fun e₁ hmem => h.last e₁ (by simp [hmem])⟩

/-- An event that is there is the last of its kind, or followed by one. -/
theorem exists_of_mem [DecidablePred p] (hmem : e ∈ history) (he : p e) :
    ∃ before e' since, LastEvent p history before e' since := by
  induction history using List.reverseRecOn with
  | nil => cases hmem
  | append_singleton history last ih =>
    by_cases hlast : p last
    · exact ⟨history, last, [], concat_self hlast⟩
    · rcases List.mem_append.mp hmem with hmem | hmem
      · obtain ⟨before, e', since, h⟩ := ih hmem
        exact ⟨before, e', since ++ [last], h.concat hlast⟩
      · obtain rfl := List.mem_singleton.mp hmem
        exact absurd he hlast

/-- Without what follows the last event. -/
theorem rdropWhile {p : ε → Bool} (h : LastEvent (fun e => p e = true) history before e since) :
    history.rdropWhile (fun e => !p e) = before ++ [e] := by
  have hsince : ∀ e' ∈ since.reverse, (!p e') = true := by
    intro e' hmem
    simpa using h.last e' (List.mem_reverse.mp hmem)
  have hkept : (!p e) = false := by simpa using h.holds
  unfold List.rdropWhile
  rw [h.split, List.reverse_append, List.reverse_cons, List.append_assoc,
    List.dropWhile_append_of_pos hsince, List.singleton_append,
    List.dropWhile_cons_of_neg (by rw [hkept]; exact Bool.false_ne_true), List.reverse_cons,
    List.reverse_reverse]

/-- There is one last event of a kind. -/
theorem unique {before' since' : List ε} (h : LastEvent p history before e since)
    (h' : LastEvent p history before' e' since') : before = before' ∧ e = e' ∧ since = since' := by
  classical
  have hcut : ∀ {before e since}, LastEvent p history before e since →
      history.rdropWhile (fun e => !decide (p e)) = before ++ [e] := fun h =>
    rdropWhile (p := fun e => decide (p e))
      ⟨h.split, by simpa using h.holds, by simpa using h.last⟩
  obtain ⟨rfl, he⟩ := List.append_inj' ((hcut h).symm.trans (hcut h')) rfl
  obtain rfl := List.singleton_inj.mp he
  have hrest := h.split.symm.trans h'.split
  exact ⟨rfl, rfl, (List.cons_inj_right e).mp (List.append_cancel_left hrest)⟩

end LastEvent

end Interleaving
