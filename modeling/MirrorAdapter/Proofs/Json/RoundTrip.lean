import MirrorAdapter.Proofs.Json.Scalars

/-!
# JSON is read as it was printed

The text of a value is read back as the value, so two values have one text
only if they are the same. Indentation is skipped, and what follows the text
of a value tells where it ends. The bound of the reader is never reached:
twice the length of a text is enough for it.
-/
namespace MirrorAdapter
namespace JsonValue

/-! ## Blanks -/

/-- Nothing but blanks. -/
def Blank (s : Text) : Prop := ∀ b ∈ s, isBlank b = true

/-- The end of a line and the indentation of the next one. -/
def newline (level : Nat) : Text := ('\n' : Byte) :: indent level

theorem Blank.nil : Blank [] := fun _ inside => nomatch inside

theorem Blank.indent (level : Nat) : Blank (indent level) := by
  intro b inside
  rw [List.eq_of_mem_replicate inside]
  rfl

theorem Blank.newline (level : Nat) : Blank (newline level) := by
  intro b inside
  rcases List.mem_cons.mp inside with rfl | inside
  · rfl
  · exact Blank.indent level b inside

theorem Blank.space : Blank [(' ' : Byte)] := by
  intro b inside
  rw [List.mem_singleton.mp inside]
  rfl

variable {blanks rest : Text} {fuel : Nat}

theorem skipBlanks_append (h : Blank blanks) (s : Text) :
    skipBlanks (blanks ++ s) = skipBlanks s :=
  List.dropWhile_append_of_pos h

theorem skipBlanks_cons {b : Byte} (shown : isBlank b = false) (s : Text) :
    skipBlanks (b :: s) = b :: s :=
  List.dropWhile_cons_of_neg (by rw [shown]; exact Bool.false_ne_true)

/-- The first byte that is no blank is the mark or is none. -/
theorem skipMark_append (h : Blank blanks) {b : Byte}
    (shown : isBlank b = false) (mark : Byte) (s : Text) :
    skipMark mark (blanks ++ b :: s) = if b = mark then some s else none := by
  rw [skipMark, skipBlanks_append h, skipBlanks_cons shown]

theorem readValue_append (h : Blank blanks) (s : Text) :
    readValue (fuel + 1) (blanks ++ s) = readValue (fuel + 1) s := by
  rw [readValue, readValue, skipBlanks_append h]

/-! ## Starts of values -/

/-- A byte that a number can start with. -/
def startsNumber (b : Byte) : Bool := b = '-' || b.isDigit

theorem ne_of_startsNumber {b c : Byte} (number : startsNumber b = true)
    (other : startsNumber c = false) : b ≠ c := by
  rintro rfl
  rw [number] at other
  cases other

theorem isBlank_of_startsNumber {b : Byte} (number : startsNumber b = true) :
    isBlank b = false := by
  simp only [isBlank, Bool.or_eq_false_iff, beq_eq_false_iff_ne]
  exact ⟨⟨⟨ne_of_startsNumber number rfl, ne_of_startsNumber number rfl⟩,
      ne_of_startsNumber number rfl⟩,
    ne_of_startsNumber number rfl⟩

theorem readValue_number {b : Byte} (number : startsNumber b = true)
    (s : Text) : readValue (fuel + 1) (b :: s) = readNumber (b :: s) := by
  rw [readValue, skipBlanks_cons (isBlank_of_startsNumber number)]
  dsimp only
  rw [if_neg (ne_of_startsNumber number rfl),
    if_neg (ne_of_startsNumber number rfl),
    if_neg (ne_of_startsNumber number rfl)]
  exact if_pos number

theorem exists_integerText (n : Int) :
    ∃ b more, integerText n = b :: more ∧ startsNumber b = true := by
  by_cases negative : n < 0
  · exact ⟨'-', _, integerText_of_neg negative, rfl⟩
  · obtain ⟨b, more, split, digit⟩ := Text.exists_decimal n.natAbs
    exact ⟨b, more,
      by rw [integerText_of_nonneg (Int.not_lt.mp negative), split],
      by rw [startsNumber, digit, Bool.or_true]⟩

/-- A value is printed from a byte on that is neither a blank nor the end of
an array. -/
theorem exists_render (level : Nat) (v : JsonValue) :
    ∃ b more, render level v = b :: more ∧ isBlank b = false ∧ b ≠ ']' := by
  cases v with
  | null => exact ⟨_, _, rfl, rfl, by decide⟩
  | bool value => cases value <;> exact ⟨_, _, rfl, rfl, by decide⟩
  | integer n =>
    obtain ⟨b, more, split, number⟩ := exists_integerText n
    exact ⟨b, more, split, isBlank_of_startsNumber number,
      ne_of_startsNumber number rfl⟩
  | decimal n e =>
    obtain ⟨b, more, split, number⟩ := exists_integerText n
    refine ⟨b, more ++ (Text.ofString "e" ++ integerText e), ?_,
      isBlank_of_startsNumber number, ne_of_startsNumber number rfl⟩
    rw [render, split, List.append_assoc, List.cons_append]
  | string s => exact ⟨_, _, rfl, rfl, by decide⟩
  | array items => cases items <;> exact ⟨_, _, rfl, rfl, by decide⟩
  | object members => cases members <;> exact ⟨_, _, rfl, rfl, by decide⟩

/-! ## Lists of values -/

section
variable (level closing : Nat) (v : JsonValue) (key : Text)

theorem render_array_append (items : List JsonValue) (rest : Text) :
    render level (.array (v :: items)) ++ rest = ('[' : Byte) ::
        (newline (level + 1) ++
          (render (level + 1) v ++ (renderItems (level + 1) items ++
              (newline level ++ (']' : Byte) :: rest)))) := by
  simp [render, newline, Text.ofString]

theorem renderItems_cons_append (items : List JsonValue) (rest : Text) :
    renderItems level (v :: items) ++ rest = (',' : Byte) ::
        (newline level ++
          (render level v ++ (renderItems level items ++ rest))) := by
  simp [renderItems, newline, Text.ofString]

theorem render_object_append (members : List (Text × JsonValue)) (rest : Text) :
    render level (.object ((key, v) :: members)) ++ rest = ('\x7b' : Byte) ::
        (newline (level + 1) ++ ('"' : Byte) ::
          (key.flatMap escape ++ ('"' : Byte) :: (':' : Byte) ::
            ([(' ' : Byte)] ++
              (render (level + 1) v ++ (renderMembers (level + 1) members ++
                  (newline level ++ ('\x7d' : Byte) :: rest)))))) := by
  simp [render, quote, newline, Text.ofString]

theorem renderMembers_cons_append (members : List (Text × JsonValue))
    (rest : Text) :
    renderMembers level ((key, v) :: members) ++ rest = (',' : Byte) ::
        (newline level ++ ('"' : Byte) ::
          (key.flatMap escape ++ ('"' : Byte) :: (':' : Byte) ::
            ([(' ' : Byte)] ++
              (render level v ++ (renderMembers level members ++ rest))))) := by
  simp [renderMembers, quote, newline, Text.ofString]

/-- What follows an item ends it. -/
theorem ends_renderItems (items : List JsonValue) (rest : Text) :
    Ends (renderItems level items ++ (newline closing ++ rest)) := by
  cases items with
  | nil => exact .line _
  | cons item items => exact .comma _

theorem ends_renderMembers (members : List (Text × JsonValue)) (rest : Text) :
    Ends (renderMembers level members ++ (newline closing ++ rest)) := by
  cases members with
  | nil => exact .line _
  | cons member members => exact .comma _

end

/-! ## Values -/

/-- A bound with which all that is at most half as long is read back, whatever
follows it. -/
structure ReadsBack (fuel : Nat) : Prop where
  value : ∀ {level : Nat} {v : JsonValue} {blanks rest : Text},
    2 * (render level v).length ≤ fuel → Blank blanks → Ends rest →
      readValue fuel (blanks ++ (render level v ++ rest)) = some (v, rest)
  items :
    ∀ {level : Nat} (closing : Nat) {item : JsonValue}
          {items : List JsonValue} {blanks rest : Text},
      2 * ((render level item).length + (renderItems level items).length) <
        fuel → Blank blanks → readItems fuel (blanks ++
          (render level item ++ (renderItems level items ++
            (newline closing ++ (']' : Byte) :: rest)))) =
        some (item :: items, rest)
  members :
    ∀ {level : Nat} (closing : Nat) {key : Text} {value : JsonValue}
          {members : List (Text × JsonValue)} {blanks rest : Text},
      2 * ((render level value).length + (renderMembers level members).length) <
        fuel → Blank blanks → readMembers fuel (blanks ++ ('"' : Byte) ::
          (key.flatMap escape ++ ('"' : Byte) :: (':' : Byte) ::
            ([(' ' : Byte)] ++
              (render level value ++ (renderMembers level members ++
                (newline closing ++ ('\x7d' : Byte) :: rest)))))) =
        some ((key, value) :: members, rest)

section
variable (ih : ReadsBack fuel) {level : Nat}
include ih

theorem ReadsBack.array {item : JsonValue} {items : List JsonValue}
    (enough : 2 * (render level (.array (item :: items))).length ≤ fuel + 1) :
    readValue (fuel + 1) (render level (.array (item :: items)) ++ rest) =
      some (.array (item :: items), rest) := by
  have length :=
    congrArg List.length (render_array_append level item items [])
  simp only [List.length_append, List.length_cons, List.length_nil] at length
  -- The first item is not taken for the end of an empty array.
  have started :
      skipMark ']' (newline (level + 1) ++
        (render (level + 1) item ++ (renderItems (level + 1) items ++
            (newline level ++ (']' : Byte) :: rest)))) =
        none := by
    obtain ⟨b, more, split, shown, other⟩ := exists_render (level + 1) item
    rw [split, List.cons_append, skipMark_append (Blank.newline _) shown,
      if_neg other]
  rw [render_array_append, readValue, skipBlanks_cons rfl]
  dsimp only
  rw [if_neg (by decide), if_pos rfl, started]
  dsimp only
  rw [ih.items level (by omega) (Blank.newline _)]
  rfl

theorem ReadsBack.object {key : Text} {value : JsonValue}
    {members : List (Text × JsonValue)}
    (enough : 2 * (render level (.object ((key, value) :: members))).length ≤
        fuel + 1) :
    readValue (fuel + 1)
      (render level (.object ((key, value) :: members)) ++ rest) =
      some (.object ((key, value) :: members), rest) := by
  have length :=
    congrArg List.length (render_object_append level value key members [])
  simp only [List.length_append, List.length_cons, List.length_nil] at length
  rw [render_object_append, readValue, skipBlanks_cons rfl]
  dsimp only
  rw [if_neg (by decide), if_neg (by decide), if_pos rfl,
    skipMark_append (Blank.newline _) rfl, if_neg (by decide)]
  dsimp only
  rw [ih.members level (by omega) (Blank.newline _)]
  rfl

theorem ReadsBack.succ_value {v : JsonValue}
    (enough : 2 * (render level v).length ≤ fuel + 1) (ends : Ends rest) :
    readValue (fuel + 1) (render level v ++ rest) = some (v, rest) := by
  match v with
  | .null => rfl
  | .bool true => rfl
  | .bool false => rfl
  | .integer n =>
    obtain ⟨b, more, split, number⟩ := exists_integerText n
    have read := readNumber_integer n ends
    rw [split, List.cons_append] at read
    rw [render, split, List.cons_append, readValue_number number, read]
  | .decimal n e =>
    obtain ⟨b, more, split, number⟩ := exists_integerText n
    have read := readNumber_decimal n e ends
    rw [split, List.cons_append] at read
    rw [render, split, List.append_assoc, List.append_assoc,
      List.cons_append, readValue_number number]
    exact read
  | .string s =>
    have text :
        render level (.string s) ++ rest =
          ('"' : Byte) :: (s.flatMap escape ++ ('"' : Byte) :: rest) := by
      simp [render, quote, Text.ofString]
    rw [text, readValue, skipBlanks_cons rfl]
    dsimp only
    rw [if_pos rfl, readString_escaped, Option.map_some]
  | .array [] => rfl
  | .array (item :: items) => exact ih.array enough
  | .object [] => rfl
  | .object ((key, value) :: members) => exact ih.object enough

theorem ReadsBack.succ_items (closing : Nat)
    {item : JsonValue} {items : List JsonValue}
    (enough :
      2 * ((render level item).length + (renderItems level items).length) <
        fuel + 1)
    (blank : Blank blanks) :
    readItems (fuel + 1) (blanks ++
      (render level item ++ (renderItems level items ++
          (newline closing ++ (']' : Byte) :: rest)))) =
      some (item :: items, rest) := by
  simp only [readItems, Option.bind_eq_bind]
  rw [ih.value (by omega) blank (ends_renderItems level closing items _),
    Option.bind_some]
  dsimp only
  cases items with
  | nil =>
    rw [renderItems, List.nil_append, skipMark_append (Blank.newline _) rfl,
      skipMark_append (Blank.newline _) rfl]
    rfl
  | cons next items =>
    have length :=
      congrArg List.length (renderItems_cons_append level next items [])
    simp only [List.length_append, List.length_cons, List.length_nil] at length
    have comma (s : Text) : skipMark ',' ((',' : Byte) :: s) = some s := rfl
    rw [renderItems_cons_append, comma]
    dsimp only
    rw [ih.items closing (by omega) (Blank.newline _)]
    rfl

theorem ReadsBack.succ_members (closing : Nat) {key : Text}
    {value : JsonValue} {members : List (Text × JsonValue)}
    (enough :
      2 * ((render level value).length + (renderMembers level members).length) <
        fuel + 1)
    (blank : Blank blanks) :
    readMembers (fuel + 1) (blanks ++ ('"' : Byte) ::
      (key.flatMap escape ++ ('"' : Byte) :: (':' : Byte) :: ([(' ' : Byte)] ++
          (render level value ++ (renderMembers level members ++
              (newline closing ++ ('\x7d' : Byte) :: rest)))))) =
      some ((key, value) :: members, rest) := by
  have colon (s : Text) : skipMark ':' ((':' : Byte) :: s) = some s := rfl
  simp only [readMembers, Option.bind_eq_bind]
  rw [skipMark_append blank rfl, if_pos rfl, Option.bind_some,
    readString_escaped, Option.bind_some]
  dsimp only
  rw [colon, Option.bind_some, ih.value (by omega) Blank.space
      (ends_renderMembers level closing members _), Option.bind_some]
  dsimp only
  cases members with
  | nil =>
    rw [renderMembers, List.nil_append, skipMark_append (Blank.newline _) rfl,
      skipMark_append (Blank.newline _) rfl]
    rfl
  | cons member members =>
    obtain ⟨nextKey, next⟩ := member
    have length :=
      congrArg List.length
        (renderMembers_cons_append level next nextKey members [])
    simp only [List.length_append, List.length_cons, List.length_nil] at length
    have comma (s : Text) : skipMark ',' ((',' : Byte) :: s) = some s := rfl
    rw [renderMembers_cons_append, comma]
    dsimp only
    rw [ih.members closing (by omega) (Blank.newline _)]
    rfl

end

/-- The reader goes one step down with each value and each list of them. -/
theorem readsBack (fuel : Nat) : ReadsBack fuel := by
  induction fuel with
  | zero =>
    have positive (level : Nat) (v : JsonValue) :
        0 < (render level v).length := by
      obtain ⟨b, more, split, -⟩ := exists_render level v
      rw [split]
      exact Nat.succ_pos _
    exact
      { value := fun {level v} _ _ enough =>
          absurd (positive level v) (by omega)
        items := fun _ _ _ _ _ enough => absurd enough (Nat.not_lt_zero _)
        members :=
          fun _ _ _ _ _ _ enough => absurd enough (Nat.not_lt_zero _) }
  | succ fuel ih =>
    exact
      { value := fun enough blank ends => by
          rw [readValue_append blank, ih.succ_value enough ends]
        items := fun closing => ih.succ_items closing
        members := fun closing => ih.succ_members closing }

/-! ## Texts -/

/-- Every value is read from the line it is printed on, and nothing is left
over. -/
theorem parse?_render (level : Nat) (v : JsonValue) :
    parse? (render level v ++ Text.ofString "\n") = some v := by
  have enough :
      2 * (render level v).length ≤
        2 * (render level v ++ Text.ofString "\n").length + 2 := by
    rw [List.length_append]
    omega
  have read :
      readValue (2 * (render level v ++ Text.ofString "\n").length + 2)
        (render level v ++ Text.ofString "\n") =
        some (v, Text.ofString "\n") :=
    (readsBack _).value enough Blank.nil (.line [])
  rw [parse?, read]
  rfl

/-- Values with one text are one value. -/
theorem render_injective (level : Nat) :
    Function.Injective (render level) := by
  intro v w same
  have read := parse?_render level v
  rw [same, parse?_render level w] at read
  exact (Option.some.inj read).symm

end JsonValue
end MirrorAdapter
