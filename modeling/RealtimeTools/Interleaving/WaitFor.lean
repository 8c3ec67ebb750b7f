import Mathlib.Data.Fintype.Card
import Mathlib.Logic.Relation
import Mathlib.Order.WellFounded

/-!
# Circular waits

Threads that wait for locks and own others form a wait-for graph; a cycle in it is a deadlock.  The
same cycle shows in the graph on the locks that has an edge from each lock a thread owns to the one
it waits for, so deadlocks are ruled out by keeping a graph on the locks acyclic.
-/

namespace Interleaving

section Acyclic

variable {α : Type*} {r r' : α → α → Prop} {a b : α}

def Acyclic (r : α → α → Prop) : Prop := ∀ a, ¬ Relation.TransGen r a a

theorem Acyclic.mono (h : Acyclic r) (hsub : ∀ x y, r' x y → r x y) : Acyclic r' :=
  fun a ha => h a (Relation.TransGen.mono hsub a a ha)

theorem acyclic_empty (h : ∀ x y, ¬ r x y) : Acyclic r := by
  intro a ha
  obtain ⟨b, hab, _⟩ := Relation.TransGen.head'_iff.mp ha
  exact h a b hab

/-- A new edge closes no cycle if there is no way back. -/
theorem Acyclic.insert (h : Acyclic r) (hback : ¬ Relation.ReflTransGen r b a)
    (hsub : ∀ x y, r' x y → r x y ∨ (x = a ∧ y = b)) : Acyclic r' := by
  -- A path in the larger graph avoids the edge, or leads to it and from it by old edges.
  have hpath : ∀ {x y}, Relation.TransGen r' x y → Relation.TransGen r x y ∨
      (Relation.ReflTransGen r x a ∧ Relation.ReflTransGen r b y) := by
    intro x y hxy
    induction hxy with
    | single hstep =>
      rcases hsub _ _ hstep with hold | ⟨rfl, rfl⟩
      · exact .inl (.single hold)
      · exact .inr ⟨.refl, .refl⟩
    | tail _ hstep ih =>
      rcases hsub _ _ hstep with hold | ⟨rfl, rfl⟩
      · rcases ih with hxy | ⟨hxa, hby⟩
        · exact .inl (hxy.tail hold)
        · exact .inr ⟨hxa, hby.tail hold⟩
      · rcases ih with hxy | ⟨hxa, _⟩
        · exact .inr ⟨hxy.to_reflTransGen, .refl⟩
        · exact .inr ⟨hxa, .refl⟩
  intro x hx
  rcases hpath hx with hold | ⟨hxa, hbx⟩
  · exact h x hold
  · exact hback (hbx.trans hxa)

end Acyclic

section Locks

variable {κ β : Type*} {waits : κ → Option β} {owner : β → Option κ} {t u : κ}

/-- `t` waits for a lock that `u` owns. -/
def WaitsFor (waits : κ → Option β) (owner : β → Option κ) (t u : κ) : Prop :=
  ∃ b, waits t = some b ∧ owner b = some u

/-- A cycle of threads, each waiting for a lock that the next one owns. -/
def CircularWait (waits : κ → Option β) (owner : β → Option κ) : Prop :=
  ∃ t, Relation.TransGen (WaitsFor waits owner) t t

/-- Some thread owns `b` and waits for `c`. -/
def LockEdge (waits : κ → Option β) (owner : β → Option κ) (b c : β) : Prop :=
  ∃ t, owner b = some t ∧ waits t = some c

/-- A chain of waiting threads is a chain of the locks they wait for. -/
theorem exists_lock_path {c : β} (h : Relation.TransGen (WaitsFor waits owner) t u)
    (hu : waits u = some c) :
    ∃ b, waits t = some b ∧ Relation.TransGen (LockEdge waits owner) b c := by
  induction h generalizing c with
  | single hstep =>
    obtain ⟨b, hb, hown⟩ := hstep
    exact ⟨b, hb, .single ⟨_, hown, hu⟩⟩
  | tail _ hstep ih =>
    obtain ⟨d, hd, hown⟩ := hstep
    obtain ⟨b, hb, hpath⟩ := ih hd
    exact ⟨b, hb, hpath.tail ⟨_, hown, hu⟩⟩

/-- **Acyclic locks.**  Without a cycle of locks there is no circular wait. -/
theorem not_circularWait (h : Acyclic (LockEdge waits owner)) : ¬ CircularWait waits owner := by
  rintro ⟨t, ht⟩
  obtain ⟨u, ⟨c, hc, _⟩, _⟩ := Relation.TransGen.head'_iff.mp ht
  obtain ⟨b, hb, hpath⟩ := exists_lock_path ht hc
  obtain rfl := Option.some.inj (hb.symm.trans hc)
  exact h b hpath

/-- **The end of a chain.**  Without a circular wait of finitely many threads, every chain of waiting
threads leads to one that waits for nobody. -/
theorem exists_chain_end [Finite κ] (h : ¬ CircularWait waits owner) (t : κ) :
    ∃ u, Relation.ReflTransGen (WaitsFor waits owner) t u ∧ ∀ v, ¬ WaitsFor waits owner u v := by
  let later : κ → κ → Prop := fun u v => Relation.TransGen (WaitsFor waits owner) v u
  have : IsTrans κ later := ⟨fun _ _ _ huv hvw => hvw.trans huv⟩
  have : Std.Irrefl later := ⟨fun u hu => h ⟨u, hu⟩⟩
  have hwf : WellFounded later := Finite.wellFounded_of_trans_of_irrefl later
  obtain ⟨u, htu, hmin⟩ :=
    hwf.has_min {u | Relation.ReflTransGen (WaitsFor waits owner) t u} ⟨t, .refl⟩
  exact ⟨u, htu, fun v huv => hmin v (htu.tail huv) (.single huv)⟩

end Locks

end Interleaving
