import Mathlib.Data.List.Sort
import MirrorAdapter.Text.Order

/-!
# Sorted texts

The order of texts is the lexicographic order of their bytes. `Text.sortedSet`
puts the members of a list in this order, each of them once, so what it
returns is settled by which texts occur.
-/
namespace MirrorAdapter
namespace Text

/-- Texts are compared as lists of bytes are: the first byte in which they
differ decides. -/
theorem before_iff_lt (s t : Text) : before s t = true ↔ s < t := by
  fun_induction before s t with
  | case1 s => simp
  | case2 b t => simp
  | case3 a s b t ih =>
    rw [List.cons_lt_cons_iff, Bool.or_eq_true, Bool.and_eq_true, ih]
    simp

theorem pairwise_insertSorted {ts : List Text} (sorted : ts.Pairwise (· < ·))
    (s : Text) : (insertSorted s ts).Pairwise (· < ·) := by
  induction ts with
  | nil => simp [insertSorted]
  | cons t ts ih =>
    obtain ⟨least, sorted'⟩ := List.pairwise_cons.mp sorted
    rw [insertSorted]
    split
    · rename_i first
      rw [before_iff_lt] at first
      apply List.Pairwise.cons _ sorted
      intro u inside
      rcases List.mem_cons.mp inside with rfl | later
      · exact first
      · exact List.lt_trans first (least u later)
    · rename_i notFirst
      rw [before_iff_lt] at notFirst
      split
      · exact sorted
      · rename_i other
        have behind : t < s := by
          by_contra notBehind
          exact other (by
              simpa using Std.Trichotomous.trichotomous s t notFirst notBehind)
        apply List.Pairwise.cons _ (ih sorted')
        intro u inside
        rcases mem_insertSorted.mp inside with rfl | later
        · exact behind
        · exact least u later

/-- What is sorted increases from each text to the next, so no text occurs
twice in it. -/
theorem pairwise_sortedSet (ts : List Text) :
    (sortedSet ts).Pairwise (· < ·) := by
  induction ts with
  | nil => exact .nil
  | cons t ts ih => exact pairwise_insertSorted ih t

theorem nodup_sortedSet (ts : List Text) : (sortedSet ts).Nodup := by
  apply (pairwise_sortedSet ts).imp
  intro s t less same
  subst same
  exact List.lt_irrefl s less

/-- Which texts occur settles what is sorted. -/
theorem sortedSet_eq_iff (ts us : List Text) :
    sortedSet ts = sortedSet us ↔ ∀ s, s ∈ ts ↔ s ∈ us := by
  constructor
  · intro same s
    rw [← mem_sortedSet, same, mem_sortedSet]
  · intro same
    apply (pairwise_sortedSet ts).eq_of_mem_iff (pairwise_sortedSet us)
    intro s
    rw [mem_sortedSet, mem_sortedSet, same]

end Text
end MirrorAdapter
