import MirrorAdapter.Text.Basic

/-!
# Order of texts

Texts are ordered byte by byte, the shorter of two that agree coming first.
`Text.sortedSet` lists the distinct members of a list in this order; what it
returns depends only on which texts occur.
-/
namespace MirrorAdapter
namespace Text

/-- Whether the first text comes before the second. -/
def before : Text → Text → Bool
  | _, [] => false
  | [], _ :: _ => true
  | a :: s, b :: t => a < b || (a == b && before s t)

/-- Puts a text at its place in an increasing list, unless it is there
already. -/
def insertSorted (s : Text) : List Text → List Text
  | [] => [s]
  | t :: ts =>
    if before s t then s :: t :: ts
    else if s == t then t :: ts
    else t :: insertSorted s ts

/-- The distinct texts of a list in increasing order. -/
def sortedSet (texts : List Text) : List Text := texts.foldr insertSorted []

theorem mem_insertSorted {s u : Text} {ts : List Text} :
    u ∈ insertSorted s ts ↔ u = s ∨ u ∈ ts := by
  induction ts with
  | nil => simp [insertSorted]
  | cons t ts ih =>
    rw [insertSorted]
    split
    · simp
    · split
      · rename_i h
        simp [eq_of_beq h]
      · simp only [List.mem_cons, ih]
        constructor
        · rintro (h | h | h) <;> simp [h]
        · rintro (h | h | h) <;> simp [h]

/-- Sorting keeps the members. -/
theorem mem_sortedSet {u : Text} {ts : List Text} :
    u ∈ sortedSet ts ↔ u ∈ ts := by
  induction ts with
  | nil => simp [sortedSet]
  | cons t ts ih =>
    have step : sortedSet (t :: ts) = insertSorted t (sortedSet ts) := rfl
    rw [step, mem_insertSorted, ih, List.mem_cons]

end Text
end MirrorAdapter
