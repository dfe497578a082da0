import MirrorAdapter.Json.Printer
import MirrorAdapter.Json.Reader
import MirrorAdapter.Proofs.Decimals

/-!
# Strings and numbers in JSON

A string is read back as it was printed, whatever its bytes are: each byte has
an escape of its own or stands for itself, and neither a quote nor a backslash
does. A number is read back if no digit, point or exponent follows it.
-/
namespace MirrorAdapter
namespace JsonValue

/-! ## Strings -/

theorem readPieces_plain {b : Byte} (quote : b ≠ '"')
    (backslash : b ≠ '\\') (control : ¬b < 32) (rest : Text) :
    readPieces (b :: rest) =
      (readPieces rest).map fun (ps, rest) => (.byte b :: ps, rest) := by
  rw [readPieces.eq_def]
  dsimp only
  rw [if_neg quote, if_neg control, if_pos backslash]

theorem readPieces_letter {e c : Byte} (letter : e ≠ 'u')
    (escaped : unescape? e = some c) (rest : Text) :
    readPieces ('\\' :: e :: rest) =
      (readPieces rest).map fun (ps, rest) => (.byte c :: ps, rest) := by
  rw [readPieces.eq_def]
  dsimp only
  rw [if_neg (by decide), if_neg (by decide), if_neg (by decide),
    if_pos letter, escaped]
  rfl

theorem readPieces_unit {w x y z : Byte} {code : Nat}
    (digits : unitOf? w x y z = some code) (rest : Text) :
    readPieces ('\\' :: 'u' :: w :: x :: y :: z :: rest) =
      (readPieces rest).map fun (ps, rest) => (.unit code :: ps, rest) := by
  rw [readPieces.eq_def]
  dsimp only
  rw [if_neg (by decide), if_neg (by decide), if_neg (by decide),
    if_neg (by decide), digits]
  rfl

/-- The piece that a printed byte is read as: control bytes that have no
letter are printed as units. -/
def pieceOf (b : Byte) : StringPiece :=
  if b < 32 ∧ b ≠ '\t' ∧ b ≠ '\n' ∧ b ≠ '\r' then .unit b.toNat else .byte b

theorem hexValue?_hexDigit {n : Nat} (h : n < 16) :
    hexValue? (hexDigit n) = some n := by
  have every : ∀ n < 16, hexValue? (hexDigit n) = some n := by decide
  exact every n h

/-- What is printed for a byte is read as one piece. -/
theorem readPieces_escape (b : Byte) (rest : Text) :
    readPieces (escape b ++ rest) =
      (readPieces rest).map fun (ps, rest) => (pieceOf b :: ps, rest) := by
  by_cases quote : b = '"'
  · subst quote
    exact readPieces_letter (by decide) rfl rest
  by_cases backslash : b = '\\'
  · subst backslash
    exact readPieces_letter (by decide) rfl rest
  by_cases tab : b = '\t'
  · subst tab
    exact readPieces_letter (e := 't') (by decide) rfl rest
  by_cases feed : b = '\n'
  · subst feed
    exact readPieces_letter (e := 'n') (by decide) rfl rest
  by_cases ret : b = '\r'
  · subst ret
    exact readPieces_letter (e := 'r') (by decide) rfl rest
  rw [escape, if_neg quote, if_neg backslash, if_neg tab, if_neg feed,
    if_neg ret, pieceOf]
  by_cases control : b < 32
  · have small : b.toNat < 32 := UInt8.lt_iff_toNat_lt.mp control
    have digits :
        unitOf? '0' '0' (hexDigit (b.toNat / 16)) (hexDigit (b.toNat % 16)) =
          some b.toNat := by
      have zero : hexValue? '0' = some 0 := rfl
      simp only [unitOf?, zero,
        hexValue?_hexDigit (show b.toNat / 16 < 16 by omega),
        hexValue?_hexDigit (show b.toNat % 16 < 16 by omega),
        Option.bind_eq_bind, Option.bind_some]
      rw [Option.pure_def, Option.some.injEq]
      omega
    rw [if_pos control, if_pos ⟨control, tab, feed, ret⟩]
    exact readPieces_unit digits rest
  · rw [if_neg control, if_neg fun h => control h.1]
    exact readPieces_plain quote backslash control rest

theorem readPieces_escaped (s rest : Text) :
    readPieces (s.flatMap escape ++ ('"' : Byte) :: rest) =
      some (s.map pieceOf, rest) := by
  induction s with
  | nil =>
    rw [List.flatMap_nil, List.nil_append, readPieces.eq_def]
    rfl
  | cons b s ih =>
    rw [List.flatMap_cons, List.append_assoc, readPieces_escape, ih]
    rfl

theorem bytesOf_pieces (s : Text) : bytesOf none (s.map pieceOf) = s := by
  induction s with
  | nil => rfl
  | cons b s ih =>
    rw [List.map_cons, pieceOf]
    split
    · rename_i control
      have small : b.toNat < 32 := UInt8.lt_iff_toNat_lt.mp control.1
      have high : isHighSurrogate b.toNat = false := by
        simp only [isHighSurrogate, Bool.and_eq_false_iff,
          decide_eq_false_iff_not]
        omega
      have low : isLowSurrogate b.toNat = false := by
        simp only [isLowSurrogate, Bool.and_eq_false_iff,
          decide_eq_false_iff_not]
        omega
      have byte : utf8 b.toNat = [b] := by
        rw [utf8, if_pos (by omega), UInt8.ofNat_toNat]
      rw [bytesOf, high, low, ih, byte]
      rfl
    · rw [bytesOf, ih]
      rfl

/-- A string is read back from behind its first quote on. -/
theorem readString_escaped (s rest : Text) :
    readString (s.flatMap escape ++ ('"' : Byte) :: rest) = some (s, rest) := by
  rw [readString, readPieces_escaped, Option.map_some]
  dsimp only
  rw [bytesOf_pieces]

/-! ## Numbers -/

/-- What can follow a value: a comma, the end of a line, or nothing. -/
inductive Ends : Text → Prop where
  | nothing : Ends []
  | comma (rest : Text) : Ends (',' :: rest)
  | line (rest : Text) : Ends ('\n' :: rest)

variable {rest : Text}

theorem readFraction_of_ends (h : Ends rest) :
    readFraction rest = some (none, rest) := by
  cases h <;> rfl

theorem readExponent_of_ends (h : Ends rest) :
    readExponent rest = some (none, rest) := by
  cases h <;> rfl

/-- No digit follows. -/
def NoDigit (rest : Text) : Prop := rest.takeWhile Byte.isDigit = []

theorem Ends.noDigit (h : Ends rest) : NoDigit rest := by
  cases h <;> rfl

theorem readDigits_decimal (n : Nat) (stops : NoDigit rest) :
    readDigits (Text.decimal n ++ rest) = some (Text.decimal n, rest) := by
  have digits : ∀ b ∈ Text.decimal n, b.isDigit = true :=
    fun b inside => Text.isDigit_of_mem_decimal inside
  have behind : rest.dropWhile Byte.isDigit = rest := by
    have whole :=
      List.takeWhile_append_dropWhile (p := Byte.isDigit) (l := rest)
    rwa [stops, List.nil_append] at whole
  have something : (Text.decimal n).isEmpty = false := by
    simpa using Text.decimal_ne_nil n
  rw [readDigits, List.takeWhile_append_of_pos digits,
    List.dropWhile_append_of_pos digits, stops, behind, List.append_nil]
  simp [something]

theorem readWhole_decimal (n : Nat) (stops : NoDigit rest) :
    readWhole (Text.decimal n ++ rest) = some (Text.decimal n, rest) := by
  by_cases zero : n = 0
  · subst zero
    rw [Text.decimal_zero]
    rfl
  · have first := Text.head?_decimal_ne_zero (Nat.pos_of_ne_zero zero)
    have digits := readDigits_decimal n stops
    obtain ⟨b, more, split⟩ :=
      List.exists_cons_of_ne_nil (Text.decimal_ne_nil n)
    rw [split] at first digits ⊢
    have other : b ≠ '0' := by simpa using first
    rw [List.cons_append, readWhole, if_neg other]
    exact digits

theorem numeral?_decimal (n : Nat) :
    Text.numeral? 10 (Text.decimal n) = some n := by
  have something : (Text.decimal n).isEmpty = false := by
    simpa using Text.decimal_ne_nil n
  rw [Text.numeral?, something, if_neg (by simp), Text.numeralFrom_decimal]

theorem integerText_of_nonneg {n : Int} (h : 0 ≤ n) :
    integerText n = Text.decimal n.natAbs := by
  simp [integerText, Int.not_lt.mpr h]

theorem integerText_of_neg {n : Int} (h : n < 0) :
    integerText n = ('-' : Byte) :: Text.decimal n.natAbs := by
  simp [integerText, h, Text.ofString]

/-- A run of digits starts with no sign. -/
theorem head?_decimal_append (n : Nat) (rest : Text) :
    ∃ b, (Text.decimal n ++ rest).head? = some b ∧ b ≠ 45 ∧ b ≠ 43 := by
  obtain ⟨b, more, split, digit⟩ := Text.exists_decimal n
  refine ⟨b, by rw [split]; rfl, ?_, ?_⟩ <;>
    · rintro rfl
      revert digit
      decide

/-- An integer as it is printed: a sign or none, and then digits. -/
theorem integerText_cases (n : Int) (rest : Text) :
    (((integerText n ++ rest).head? == some 45) = true ∧
      (integerText n ++ rest).drop 1 = Text.decimal n.natAbs ++ rest ∧
      -Int.ofNat n.natAbs = n) ∨
    (integerText n = Text.decimal n.natAbs ∧
      ((Text.decimal n.natAbs ++ rest).head? == some 45) = false ∧
      ((Text.decimal n.natAbs ++ rest).head? == some 43) = false ∧
      Int.ofNat n.natAbs = n) := by
  by_cases negative : n < 0
  · left
    rw [integerText_of_neg negative, Int.ofNat_eq_natCast]
    exact ⟨rfl, rfl, by omega⟩
  · right
    obtain ⟨b, first, minus, plus⟩ := head?_decimal_append n.natAbs rest
    rw [integerText_of_nonneg (Int.not_lt.mp negative), first,
      Int.ofNat_eq_natCast]
    exact ⟨rfl, by simpa using minus, by simpa using plus, by omega⟩

/-- After the digits of a number its fraction and its exponent are read. -/
theorem readNumber_integerText (n : Int) {after : Text} {exponent : Option Int}
    (stops : NoDigit rest) (fraction : readFraction rest = some (none, rest))
    (power : readExponent rest = some (exponent, after)) :
    readNumber (integerText n ++ rest) = some (match exponent with
        | none => .integer n
        | some e => .decimal n e, after) := by
  rw [readNumber]
  rcases integerText_cases n rest
      with ⟨sign, digits, value⟩ | ⟨digits, sign, -, value⟩
  · simp only [sign, digits, if_true, readWhole_decimal _ stops, fraction,
      power, Option.bind_eq_bind, Option.bind_some, Option.getD_none,
      List.append_nil, numeral?_decimal, Option.getD_some, value]
    cases exponent <;> simp
  · simp only [sign, digits, Bool.false_eq_true, if_false,
      readWhole_decimal _ stops, fraction, power, Option.bind_eq_bind,
      Option.bind_some, Option.getD_none, List.append_nil, numeral?_decimal,
      Option.getD_some, value]
    cases exponent <;> simp

theorem readNumber_integer (n : Int) (h : Ends rest) :
    readNumber (integerText n ++ rest) = some (.integer n, rest) :=
  readNumber_integerText n h.noDigit (readFraction_of_ends h)
    (readExponent_of_ends h)

theorem readExponent_integerText (e : Int) (h : Ends rest) :
    readExponent (('e' : Byte) :: (integerText e ++ rest)) =
      some (some e, rest) := by
  rw [readExponent, if_pos (.inl rfl)]
  rcases integerText_cases e rest
      with ⟨sign, digits, value⟩ | ⟨digits, sign, plus, value⟩
  · simp only [sign, Bool.true_or, if_true, digits,
      readDigits_decimal _ h.noDigit, Option.map_some, numeral?_decimal,
      Option.getD_some, value]
  · simp only [sign, plus, Bool.or_false, Bool.false_eq_true,
      if_false, digits, readDigits_decimal _ h.noDigit,
      Option.map_some, numeral?_decimal, Option.getD_some, value]

theorem readNumber_decimal (n e : Int) (h : Ends rest) :
    readNumber (integerText n ++ ('e' : Byte) :: (integerText e ++ rest)) =
      some (.decimal n e, rest) :=
  have stops : NoDigit (('e' : Byte) :: (integerText e ++ rest)) := rfl
  readNumber_integerText n stops rfl (readExponent_integerText e h)

end JsonValue
end MirrorAdapter
