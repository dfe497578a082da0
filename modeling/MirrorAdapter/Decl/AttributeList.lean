import MirrorAdapter.Decl.Parsed

/-!
# Reading attribute lists

Attributes stand in double brackets, several in one pair or in pairs of their
own. Only directives are kept; any other attribute is skipped with a warning.
-/
namespace MirrorAdapter
namespace Decl

/-- The further components of a name: a `::` and an identifier, again and
again. There are none to give where a `::` has no identifier after it; the
rest starts after that `::`. -/
def pathTail : List Token → Option (List Text) × List Token
  | [] => (some [], [])
  | t :: ts =>
    if t.kind = .scope then
      match ts with
      | [] => (none, [])
      | u :: us =>
        if u.kind = .identifier then
          let (components, rest) := pathTail us
          (components.map (u.text :: ·), rest)
        else (none, u :: us)
    else (some [], t :: ts)

/-- The tokens before the closing parenthesis that none of them opens, and the
rest from it on. -/
def argumentTokens : Nat → List Token → List Token × List Token
  | _, [] => ([], [])
  | depth, t :: ts =>
    if t.kind = .lparen then
      let (inside, rest) := argumentTokens (depth + 1) ts
      (t :: inside, rest)
    else if t.kind = .rparen then
      match depth with
      | 0 => ([], t :: ts)
      | outer + 1 =>
        let (inside, rest) := argumentTokens outer ts
        (t :: inside, rest)
    else
      let (inside, rest) := argumentTokens depth ts
      (t :: inside, rest)

theorem pathTail_suffix (tokens : List Token) :
    (pathTail tokens).2 <:+ tokens := by
  fun_induction pathTail tokens with
  | case1 => exact List.suffix_refl _
  | case2 => exact List.nil_suffix
  | case3 _ _ _ _ _ _ _ h ih =>
    rw [h] at ih
    exact ih.trans ((List.suffix_cons _ _).trans (List.suffix_cons _ _))
  | case4 => exact List.suffix_cons _ _
  | case5 => exact List.suffix_refl _

theorem argumentTokens_append (depth : Nat) (tokens : List Token) :
    (argumentTokens depth tokens).1 ++ (argumentTokens depth tokens).2 =
      tokens := by
  fun_induction argumentTokens depth tokens with
  | case1 => rfl
  | case2 _ _ _ _ _ _ h ih => rw [h] at ih; simpa using ih
  | case3 => rfl
  | case4 _ _ _ _ _ _ _ h ih => rw [h] at ih; simpa using ih
  | case5 _ _ _ _ _ _ _ h ih => rw [h] at ih; simpa using ih

theorem argumentTokens_suffix (depth : Nat) (tokens : List Token) :
    (argumentTokens depth tokens).2 <:+ tokens :=
  ⟨_, argumentTokens_append depth tokens⟩

section
variable (stop : Token)

/-- The name of an attribute, components joined by `::`, and where it
starts. -/
def readAttributeName (tokens : List Token) : Parsed (Text × Location) :=
  match tokens with
  | [] => blame stop .missingAttributeName []
  | t :: ts =>
    if t.kind = .identifier then
      match pathTail ts with
      | (some components, rest) =>
        .done (Text.join "::" (t.text :: components), t.location) rest
      | (none, rest) => blame stop .missingAttributeComponent rest
    else blame stop .missingAttributeName (t :: ts)

/-- The argument tokens of the named attribute, if a parenthesis opens
here. -/
def readArguments (name : Text) (tokens : List Token) :
    Parsed (Option (List Token)) :=
  match tokens with
  | [] => .done none []
  | t :: ts =>
    if t.kind = .lparen then
      let (inside, rest) := argumentTokens 0 ts
      (expect stop .rparen (.unbalancedArguments name) rest).andThen
        fun _ rest => .done (some inside) rest
    else .done none (t :: ts)

def readAttribute (tokens : List Token) : Parsed Attribute :=
  (readAttributeName stop tokens).andThen fun (name, location) rest =>
    (readArguments stop name rest).andThen fun arguments rest =>
      .done { name, location, arguments } rest

/-- What reading an attribute contributes: itself if it is a directive, else a
warning. -/
def keepDirective (a : Attribute) : List Attribute × Log :=
  if a.isDirective then ([a], [])
  else ([], [(Fault.ignoredAttribute a.name).report a.location])

theorem within_readAttributeName (tokens : List Token) :
    (readAttributeName stop tokens).Within tokens := by
  unfold readAttributeName
  split
  · exact within_blame stop _ _
  · rename_i t ts
    have tail := pathTail_suffix ts
    split
    · split
      · rename_i h
        rw [h] at tail
        exact Parsed.Within.trans (Parsed.within_done _ _)
          (tail.trans (List.suffix_cons _ _))
      · rename_i h
        rw [h] at tail
        exact (within_blame stop _ _).trans (tail.trans (List.suffix_cons _ _))
    · exact within_blame stop _ _

theorem within_readArguments (name : Text) (tokens : List Token) :
    (readArguments stop name tokens).Within tokens := by
  unfold readArguments
  split
  · exact Parsed.within_done _ _
  · split
    · refine (Parsed.Within.andThen (within_expect stop _ _ _)
          fun _ _ => Parsed.within_done _ _).trans ?_
      exact (argumentTokens_suffix 0 _).trans (List.suffix_cons _ _)
    · exact Parsed.within_done _ _

theorem within_readAttribute (tokens : List Token) :
    (readAttribute stop tokens).Within tokens :=
  (within_readAttributeName stop tokens).andThen fun _ _ =>
    (within_readArguments stop _ _).andThen fun _ _ => Parsed.within_done _ _

/-- The directives among the comma-separated attributes from here on. A
closing bracket ends the list, also after a comma. -/
def readAttributeList (tokens : List Token) : Parsed (List Attribute) :=
  if Token.startsWith .rbracket tokens then .done [] tokens
  else
    match h : readAttribute stop tokens with
    | ⟨none, rest, log⟩ => ⟨none, rest, log⟩
    | ⟨some a, [], log⟩ =>
      ⟨some (keepDirective a).1, [], log ++ (keepDirective a).2⟩
    | ⟨some a, c :: rest, log⟩ =>
      if c.kind = .comma then
        have : rest.length < tokens.length := by
          have within : c :: rest <:+ tokens := by
            have := within_readAttribute stop tokens
            rwa [h] at this
          exact Nat.lt_of_lt_of_le (Nat.lt_succ_self _) within.length_le
        let tail := readAttributeList rest
        ⟨tail.value.map ((keepDirective a).1 ++ ·), tail.rest,
          log ++ (keepDirective a).2 ++ tail.log⟩
      else ⟨some (keepDirective a).1, c :: rest, log ++ (keepDirective a).2⟩
termination_by tokens.length

/-- The rest of an attribute group after its two opening brackets. -/
def readGroup (tokens : List Token) : Parsed (List Attribute) :=
  (readAttributeList stop tokens).andThen fun attributes rest =>
    (expect stop .rbracket .unclosedAttributeList rest).andThen fun _ rest =>
        (expect stop .rbracket .unclosedAttributeList rest).andThen
          fun _ rest => .done attributes rest

theorem within_readAttributeList (tokens : List Token) :
    (readAttributeList stop tokens).Within tokens := by
  fun_induction readAttributeList stop tokens with
  | case1 => exact Parsed.within_done _ _
  | case2 tokens _ rest log h =>
    have whole := within_readAttribute stop tokens
    rwa [h] at whole
  | case3 => exact List.nil_suffix
  | case4 tokens _ a c rest log h _ _ _ ih =>
    have whole := within_readAttribute stop tokens
    rw [h] at whole
    exact (ih.cons c).trans whole
  | case5 tokens _ a c rest log h _ =>
    have whole := within_readAttribute stop tokens
    rwa [h] at whole

theorem within_readGroup (tokens : List Token) :
    (readGroup stop tokens).Within tokens :=
  (within_readAttributeList stop tokens).andThen fun _ _ =>
    (within_expect stop _ _ _).andThen fun _ _ =>
      (within_expect stop _ _ _).andThen fun _ _ => Parsed.within_done _ _

/-- The directives of all attribute groups that start here. -/
def readAttributes (tokens : List Token) : Parsed (List Attribute) :=
  match tokens with
  | a :: b :: inside =>
    if a.kind = .lbracket ∧ b.kind = .lbracket then
      match h : readGroup stop inside with
      | ⟨none, rest, log⟩ => ⟨none, rest, log⟩
      | ⟨some group, rest, log⟩ =>
        have : rest.length < inside.length + 2 := by
          have within : rest <:+ inside := by
            have := within_readGroup stop inside
            rwa [h] at this
          have := within.length_le
          omega
        let tail := readAttributes rest
        ⟨tail.value.map (group ++ ·), tail.rest, log ++ tail.log⟩
    else .done [] (a :: b :: inside)
  | _ => .done [] tokens
termination_by tokens.length

theorem within_readAttributes (tokens : List Token) :
    (readAttributes stop tokens).Within tokens := by
  fun_induction readAttributes stop tokens with
  | case1 a b inside _ rest log h =>
    have whole := within_readGroup stop inside
    rw [h] at whole
    exact (whole.cons b).cons a
  | case2 a b inside _ group rest log h _ _ ih =>
    have whole := within_readGroup stop inside
    rw [h] at whole
    exact ih.trans ((whole.cons b).cons a)
  | case3 => exact Parsed.within_done _ _
  | case4 => exact Parsed.within_done _ _

end
end Decl
end MirrorAdapter
