import MirrorAdapter.Text.Numeral

/-!
# Decimals

A number in decimal is a run of digits that reads back as the number and has
no zero in front, so the digits of two numbers are different.
-/
namespace MirrorAdapter
namespace Text

theorem digit?_digit {n : Nat} (h : n < 10) :
    digit? 10 (digit n) = some n := by
  have every : ∀ n < 10, digit? 10 (digit n) = some n := by decide
  exact every n h

theorem isDigit_digit {n : Nat} (h : n < 10) : (digit n).isDigit = true := by
  have every : ∀ n < 10, (digit n).isDigit = true := by decide
  exact every n h

theorem numeralFrom_append (base n : Nat) (front back : Text) :
    numeralFrom base n (front ++ back) =
      (numeralFrom base n front).bind fun k => numeralFrom base k back := by
  induction front generalizing n with
  | nil => rfl
  | cons b front ih =>
    cases digit : digit? base b with
    | none => simp [numeralFrom, digit]
    | some d => simpa [numeralFrom, digit] using ih (base * n + d)

/-- A number can be read back from its decimal form. -/
theorem numeralFrom_decimal (n : Nat) :
    numeralFrom 10 0 (decimal n) = some n := by
  induction n using Nat.strongRecOn with
  | ind n ih =>
    rw [decimal]
    split
    case isTrue small =>
      simp [numeralFrom, digit?_digit small]
    case isFalse large =>
      have last : n % 10 < 10 := Nat.mod_lt n (by omega)
      rw [numeralFrom_append, ih (n / 10) (by omega)]
      simp only [Option.bind_some, numeralFrom, digit?_digit last]
      rw [Nat.div_add_mod]

theorem decimal_injective : Function.Injective decimal := by
  intro n k same
  have read := numeralFrom_decimal n
  rw [same, numeralFrom_decimal k] at read
  exact (Option.some.inj read).symm

theorem isDigit_of_mem_decimal {n : Nat} {b : Byte} (h : b ∈ decimal n) :
    b.isDigit = true := by
  induction n using Nat.strongRecOn with
  | ind n ih =>
    rw [decimal] at h
    split at h
    case isTrue small =>
      rw [List.mem_singleton.mp h]
      exact isDigit_digit small
    case isFalse large =>
      rcases List.mem_append.mp h with front | last
      · exact ih (n / 10) (by omega) front
      · rw [List.mem_singleton.mp last]
        exact isDigit_digit (Nat.mod_lt n (by omega))

theorem exists_decimal (n : Nat) :
    ∃ b more, decimal n = b :: more ∧ b.isDigit = true := by
  obtain ⟨b, more, split⟩ := List.exists_cons_of_ne_nil (decimal_ne_nil n)
  have first : b ∈ decimal n := by
    rw [split]
    exact .head _
  exact ⟨b, more, split, isDigit_of_mem_decimal first⟩

theorem decimal_zero : decimal 0 = Text.ofString "0" := by
  rw [decimal]
  rfl

/-- No digit stands in front of a number that could be left out. -/
theorem head?_decimal_ne_zero {n : Nat} (positive : 0 < n) :
    (decimal n).head? ≠ some ('0' : Byte) := by
  induction n using Nat.strongRecOn with
  | ind n ih =>
    rw [decimal]
    split
    case isTrue small =>
      have every : ∀ d < 10, 0 < d → digit d ≠ ('0' : Byte) := by decide
      simpa using every n small positive
    case isFalse large =>
      obtain ⟨b, front, digits⟩ :=
        List.exists_cons_of_ne_nil (decimal_ne_nil (n / 10))
      have higher := ih (n / 10) (by omega) (by omega)
      rw [digits] at higher ⊢
      exact higher

end Text
end MirrorAdapter
