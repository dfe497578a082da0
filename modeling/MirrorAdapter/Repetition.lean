import MirrorAdapter.Text.Basic

/-!
# Repetition

Where a key may occur once, the first element that carries it counts, and
every later one is shown together with that first.
-/
namespace MirrorAdapter
namespace Repetition

variable {α : Type}

/-- Pairs each element with the first earlier one of the same key, if there is
any, where `seen` holds the first elements of the keys so far. -/
def withFirstFrom (key : α → Text) (seen : List α) :
    List α → List (α × Option α)
  | [] => []
  | a :: rest =>
    match seen.find? (key · == key a) with
    | some first => (a, some first) :: withFirstFrom key seen rest
    | none => (a, none) :: withFirstFrom key (seen ++ [a]) rest

/-- Pairs each element with the first earlier one of the same key, if there is
any. -/
def withFirst (key : α → Text) (elements : List α) : List (α × Option α) :=
  withFirstFrom key [] elements

/-- The elements that repeat the key of an earlier one, each with the first of
that key. -/
def repeats (key : α → Text) (elements : List α) : List (α × α) :=
  (withFirst key elements).filterMap fun (a, first) => first.map (a, ·)

/-- Every element is kept, in order. -/
theorem withFirst_map_fst (key : α → Text) (elements : List α) :
    (withFirst key elements).map Prod.fst = elements := by
  suffices h :
      ∀ seen,
        (withFirstFrom key seen elements).map Prod.fst = elements from h []
  induction elements with
  | nil => intro seen; rfl
  | cons a rest ih =>
    intro seen
    rw [withFirstFrom]
    split <;> simp [ih]

end Repetition
end MirrorAdapter
