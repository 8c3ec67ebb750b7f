import Mathlib.Data.Fintype.Basic

/-!
# Values copied in many steps

A value is a family of words `ι → W`.  A copy moves one word in each step, in any order and any
number of times, and is complete when every word has arrived; until then the target is partly
written.
-/

namespace Interleaving

variable {ι W : Type*} [DecidableEq ι] {source target : ι → W} {copied : Finset ι} {i : ι}

/-- Word `i` arrives. -/
def copyWord (source target : ι → W) (i : ι) : ι → W := Function.update target i (source i)

omit [DecidableEq ι] in
/-- The words in `copied` have arrived. -/
def Copied (source target : ι → W) (copied : Finset ι) : Prop :=
  ∀ i ∈ copied, target i = source i

omit [DecidableEq ι] in
theorem copied_empty : Copied source target ∅ := fun i hi => absurd hi (Finset.notMem_empty i)

theorem Copied.copyWord (h : Copied source target copied) (i : ι) :
    Copied source (copyWord source target i) (insert i copied) := by
  intro j hj
  by_cases hji : j = i
  · rw [hji]
    exact Function.update_self i _ _
  · rw [Interleaving.copyWord, Function.update_of_ne hji]
    exact h j (Finset.mem_of_mem_insert_of_ne hj hji)

omit [DecidableEq ι] in
/-- A complete copy is the value. -/
theorem Copied.eq [Fintype ι] (h : Copied source target Finset.univ) : target = source :=
  funext fun i => h i (Finset.mem_univ i)

end Interleaving
