import MirrorAdapter.Decl.AttributeList
import MirrorAdapter.Proofs.Grammar.Steps

/-!
# Attributes and their grammar

Reading attributes takes exactly the stretches that `Grammar.Attributes`
derives, and stops before anything that does not open two square brackets.
-/
namespace MirrorAdapter
namespace Decl

open Grammar (PathTail Nested Closing parentheses Attributes opensAttributes)

/-! ## Names -/

theorem pathTail_sound {tokens rest : List Token} {components : List Text}
    (h : pathTail tokens = (some components, rest)) :
    ∃ eaten, tokens = eaten ++ rest ∧ PathTail eaten := by
  fun_induction pathTail tokens generalizing components with
  | case1 =>
    simp only [Prod.mk.injEq, Option.some.injEq] at h
    exact ⟨[], by simp [h.2], .nil⟩
  | case2 => simp at h
  | case3 t colons u us name found after tail ih =>
    simp only [Prod.mk.injEq, Option.map_eq_some_iff] at h
    obtain ⟨⟨inner, rfl, -⟩, rfl⟩ := h
    obtain ⟨eaten, rfl, good⟩ := ih tail
    exact ⟨t :: u :: eaten, rfl, .cons colons name good⟩
  | case4 => simp at h
  | case5 t ts colons =>
    simp only [Prod.mk.injEq, Option.some.injEq] at h
    exact ⟨[], by simp [h.2], .nil⟩

theorem pathTail_complete {path : List Token} (h : PathTail path) :
    ∃ components, ∀ rest, Token.startsWith .scope rest = false →
      pathTail (path ++ rest) = (some components, rest) := by
  induction h with
  | nil =>
    refine ⟨[], ?_⟩
    intro rest hrest
    cases rest with
    | nil => rfl
    | cons t ts =>
      have other : t.kind ≠ .scope := by simpa [Token.startsWith] using hrest
      rw [List.nil_append, pathTail.eq_def]
      simp [other]
  | @cons t u _ colons name _ ih =>
    obtain ⟨components, reads⟩ := ih
    refine ⟨u.text :: components, ?_⟩
    intro rest hrest
    rw [List.cons_append, pathTail.eq_def]
    simp [colons, name, reads rest hrest]

/-! ## Arguments -/

/-- Up to a closing parenthesis that none of them opens, tokens close what was
open before and match otherwise. -/
theorem argumentTokens_sound (depth : Nat) {tokens : List Token}
    (h : Token.startsWith .rparen (argumentTokens depth tokens).2 = true) :
    Closing (Nested parentheses) .rparen depth
      (argumentTokens depth tokens).1 := by
  fun_induction argumentTokens depth tokens with
  | case1 => simp [Token.startsWith] at h
  | case2 depth t ts opens inside rest tail ih =>
    rw [tail] at ih
    -- the parenthesis opened here is closed at the end of the first stretch
    obtain ⟨first, r, others, rfl, good, closes, tail⟩ := (ih h).succ
    have pair : (t.kind, r.kind) ∈ parentheses := by
      simp [parentheses, opens, closes]
    simpa using tail.prepend (t :: first ++ [r]) fun more hmore => by
      simpa using Nested.group pair good hmore
  | case3 t ts _ closes => exact .last .nil
  | case4 t ts _ closes outer inside rest tail ih =>
    rw [tail] at ih
    exact Closing.close .nil closes (ih h)
  | case5 depth t ts opens closes inside rest tail ih =>
    rw [tail] at ih
    apply (ih h).prepend [t]
    intro more hmore
    exact .token (by simp [parentheses, opens, closes]) hmore

theorem argumentTokens_nested {inside : List Token}
    (h : Nested parentheses inside) (depth : Nat) (rest : List Token) :
    argumentTokens depth (inside ++ rest) =
      (inside ++ (argumentTokens depth rest).1,
        (argumentTokens depth rest).2) := by
  induction h generalizing depth rest with
  | nil => rfl
  | token other _ ih =>
    simp only [parentheses, List.mem_singleton, forall_eq] at other
    simp [argumentTokens, other.1, other.2, ih]
  | group pair _ _ ih ih' =>
    simp only [parentheses, List.mem_singleton, Prod.mk.injEq] at pair
    simp [argumentTokens, pair.1, pair.2, ih, ih']

/-! ## One attribute -/

section
variable (stop : Token)

theorem honest_readAttributeName (tokens : List Token) :
    (readAttributeName stop tokens).Honest := by
  unfold readAttributeName
  split
  · exact honest_blame stop rfl _
  · split
    · split
      · exact Parsed.honest_done _ _
      · exact honest_blame stop rfl _
    · exact honest_blame stop rfl _

theorem honest_readArguments (name : Text) (tokens : List Token) :
    (readArguments stop name tokens).Honest := by
  unfold readArguments
  split
  · exact Parsed.honest_done _ _
  · split
    · exact Parsed.Honest.andThen (honest_expect stop _ rfl _)
        fun _ _ => Parsed.honest_done _ _
    · exact Parsed.honest_done _ _

theorem honest_readAttribute (tokens : List Token) :
    (readAttribute stop tokens).Honest :=
  (honest_readAttributeName stop tokens).andThen fun _ _ =>
    (honest_readArguments stop _ _).andThen fun _ _ => Parsed.honest_done _ _

theorem consumes_readAttributeName (tokens : List Token) :
    (readAttributeName stop tokens).Consumes tokens fun _ eaten =>
      ∃ name path,
        eaten = name :: path ∧ name.kind = .identifier ∧ PathTail path := by
  unfold readAttributeName
  split
  · exact Parsed.consumes_giveUp _ _ _ _
  · rename_i t ts
    split
    · rename_i named
      split
      · rename_i components rest tail
        obtain ⟨path, rfl, good⟩ := pathTail_sound tail
        exact Parsed.consumes_done (t :: path) ⟨t, path, rfl, named, good⟩
      · exact Parsed.consumes_giveUp _ _ _ _
    · exact Parsed.consumes_giveUp _ _ _ _

theorem consumes_readArguments (name : Text) (tokens : List Token) :
    (readArguments stop name tokens).Consumes tokens
      fun _ eaten => Grammar.Arguments eaten := by
  unfold readArguments
  split
  · exact Parsed.consumes_nothing Grammar.Arguments.absent
  · rename_i t ts
    split
    · rename_i opens
      intro found same
      cases hrest : (argumentTokens 0 ts).2 with
      | nil =>
        simp [hrest, expect, blame, Parsed.giveUp, Parsed.andThen] at same
      | cons r rest =>
        by_cases closes : r.kind = .rparen
        · have stops :
              Token.startsWith .rparen (argumentTokens 0 ts).2 = true := by
            simp [hrest, Token.startsWith, closes]
          have inside := argumentTokens_sound 0 stops
          have whole := argumentTokens_append 0 ts
          cases inside with
          | last good =>
            refine ⟨t :: (argumentTokens 0 ts).1 ++ [r], ?_,
              .list opens good closes⟩
            rw [hrest] at whole
            simp [hrest, expect, closes, Parsed.done, Parsed.andThen, whole]
        · simp [hrest, expect, closes, blame, Parsed.giveUp, Parsed.andThen]
            at same
    · exact Parsed.consumes_nothing Grammar.Arguments.absent

theorem consumes_readAttribute (tokens : List Token) :
    (readAttribute stop tokens).Consumes tokens
      fun _ eaten => Grammar.Attribute eaten := by
  apply (consumes_readAttributeName stop tokens).andThen
  intro _ _ rest _ h
  obtain ⟨name, path, rfl, named, tail⟩ := h
  apply (consumes_readArguments stop _ rest).andThen
  intro _ arguments _ _ good
  exact Parsed.consumes_nothing
    (by simpa using Grammar.Attribute.mk named tail good)

theorem reads_readAttributeName {name : Token} {path : List Token}
    (named : name.kind = .identifier) (tail : PathTail path) :
    Reads (readAttributeName stop) (name :: path)
      fun rest => Token.startsWith .scope rest = false := by
  obtain ⟨components, reads⟩ := pathTail_complete tail
  refine ⟨(Text.join "::" (name.text :: components), name.location), [],
    Log.clean_nil, ?_⟩
  intro rest hrest
  simp [readAttributeName, named, reads rest hrest, Parsed.done]

theorem reads_readArguments {arguments : List Token}
    (h : Grammar.Arguments arguments) (name : Text) :
    Reads (readArguments stop name) arguments
      fun rest => Token.startsWith .lparen rest = false := by
  cases h with
  | absent =>
    refine ⟨none, [], Log.clean_nil, ?_⟩
    intro rest hrest
    cases rest with
    | nil => rfl
    | cons t ts =>
      have other : t.kind ≠ .lparen := by simpa [Token.startsWith] using hrest
      simp [readArguments, other, Parsed.done]
  | @list l r inside opens good closes =>
    refine ⟨some inside, [], Log.clean_nil, ?_⟩
    intro rest _
    have stops : argumentTokens 0 (r :: rest) = ([], r :: rest) := by
      simp [argumentTokens, closes]
    simp [readArguments, opens, argumentTokens_nested good, stops, expect,
      closes, Parsed.done, Parsed.andThen]

/-- An attribute is read up to anything that does not continue its name or
open its arguments. -/
theorem reads_readAttribute {tokens : List Token}
    (h : Grammar.Attribute tokens) :
    Reads (readAttribute stop) tokens fun rest =>
      Token.startsWith .scope rest = false ∧
      Token.startsWith .lparen rest = false := by
  cases h with
  | @mk name path arguments named tail good =>
    refine Reads.andThen (reads_readAttributeName stop named tail)
      (fun (text, location) => ?_) ?_
    · exact ((reads_readArguments stop good text).andDone _).mono
        fun rest hrest => hrest.2
    · intro rest hrest
      cases good with
      | absent => exact hrest.1
      | list opens _ _ => simp [Token.startsWith, opens]

/-! ## Lists of attributes -/

theorem clean_keepDirective (a : Decl.Attribute) :
    Log.Clean (keepDirective a).2 := by
  unfold keepDirective
  split
  · exact Log.clean_nil
  · exact Log.clean_singleton (by simp [Fault.report, Fault.severity])

theorem clean_of_readAttribute {tokens rest : List Token} {a : Decl.Attribute}
    {log : Log} (found : readAttribute stop tokens = ⟨some a, rest, log⟩) :
    Log.Clean (log ++ (keepDirective a).2) := by
  have step := honest_readAttribute stop tokens
  rw [found] at step
  exact Log.clean_append.mpr
    ⟨step.clean_iff.mpr ⟨a, rfl⟩, clean_keepDirective a⟩

theorem honest_readAttributeList (tokens : List Token) :
    (readAttributeList stop tokens).Honest := by
  fun_induction readAttributeList stop tokens with
  | case1 => exact Parsed.honest_done _ _
  | case2 tokens _ rest log found =>
    have step := honest_readAttribute stop tokens
    rwa [found] at step
  | case3 tokens _ a log found => exact clean_of_readAttribute stop found
  | case4 tokens _ a c rest log found comma _ tail ih =>
    have first : (log ++ (keepDirective a).2).hasErrors = false :=
      clean_of_readAttribute stop found
    simp only [Parsed.Honest] at ih ⊢
    rw [Log.hasErrors_append, first, Bool.false_or, ih, Option.isNone_map]
  | case5 tokens _ a c rest log found comma =>
    exact clean_of_readAttribute stop found

theorem attribute_of_readAttribute {tokens rest : List Token}
    {a : Decl.Attribute} {log : Log}
    (found : readAttribute stop tokens = ⟨some a, rest, log⟩) :
    ∃ eaten, tokens = eaten ++ rest ∧ Grammar.Attribute eaten := by
  obtain ⟨eaten, whole, good⟩ :=
    consumes_readAttribute stop tokens a (by rw [found])
  rw [found] at whole
  exact ⟨eaten, whole, good⟩

theorem consumes_readAttributeList (tokens : List Token) :
    (readAttributeList stop tokens).Consumes tokens
      fun _ eaten => Grammar.AttributeList eaten := by
  fun_induction readAttributeList stop tokens with
  | case1 => exact Parsed.consumes_nothing .nil
  | case2 => intro _ found; simp at found
  | case3 tokens _ a log found =>
    obtain ⟨eaten, whole, good⟩ := attribute_of_readAttribute stop found
    intro _ _
    exact ⟨eaten, whole, .last good⟩
  | case4 tokens _ a c rest log found comma _ tail ih =>
    obtain ⟨eaten, whole, good⟩ := attribute_of_readAttribute stop found
    intro value same
    obtain ⟨more, inner, -⟩ := Option.map_eq_some_iff.mp same
    obtain ⟨others, rest', good'⟩ := ih more inner
    refine ⟨eaten ++ c :: others, ?_, .cons good comma good'⟩
    rw [whole, List.append_assoc]
    exact congrArg (eaten ++ c :: ·) rest'
  | case5 tokens _ a c rest log found comma =>
    obtain ⟨eaten, whole, good⟩ := attribute_of_readAttribute stop found
    intro _ _
    exact ⟨eaten, whole, .last good⟩

theorem startsWith_attribute {tokens : List Token}
    (h : Grammar.Attribute tokens) {kind : Token.Kind}
    (other : kind ≠ .identifier) (rest : List Token) :
    Token.startsWith kind (tokens ++ rest) = false := by
  cases h with
  | mk named _ _ => simp [Token.startsWith, named, other.symm]

/-- What reading a list does behind one of its attributes. -/
def readFurther (a : Attribute) (rest : List Token) :
    Parsed (List Attribute) :=
  match rest with
  | [] => ⟨some (keepDirective a).1, [], (keepDirective a).2⟩
  | c :: rest =>
    if c.kind = .comma then
      let tail := readAttributeList stop rest
      ⟨tail.value.map ((keepDirective a).1 ++ ·), tail.rest,
        (keepDirective a).2 ++ tail.log⟩
    else ⟨some (keepDirective a).1, c :: rest, (keepDirective a).2⟩

/-- The step of a list without the bookkeeping for its end. -/
theorem readAttributeList_of_open {tokens : List Token}
    (h : Token.startsWith .rbracket tokens = false) :
    readAttributeList stop tokens =
      (readAttribute stop tokens).andThen (readFurther stop) := by
  rw [readAttributeList, if_neg (by simp [h])]
  split <;> rename_i found <;> simp only [found, Parsed.andThen, readFurther]
  split <;> simp

/-- A list of attributes is read up to the closing bracket after it. -/
theorem reads_readAttributeList {tokens : List Token}
    (h : Grammar.AttributeList tokens) :
    Reads (readAttributeList stop) tokens
      fun rest => Token.startsWith .rbracket rest = true := by
  induction h with
  | nil =>
    refine ⟨[], [], Log.clean_nil, ?_⟩
    intro rest hrest
    rw [List.nil_append, readAttributeList, if_pos hrest]
    rfl
  -- The closing bracket ends the last attribute, as the comma ends every
  -- other one.
  | @last first good =>
    obtain ⟨a, log, clean, reads⟩ := reads_readAttribute stop good
    refine ⟨(keepDirective a).1, log ++ (keepDirective a).2,
      by simp [clean, clean_keepDirective], ?_⟩
    intro rest hrest
    obtain ⟨r, rest, rfl, closes⟩ := Token.exists_of_startsWith hrest
    rw [readAttributeList_of_open stop
        (startsWith_attribute good (by decide) _),
      reads (r :: rest) (by simp [Token.startsWith, closes])]
    simp [Parsed.andThen, readFurther, closes]
  | @cons first others c good comma _ ih =>
    obtain ⟨a, log, clean, reads⟩ := reads_readAttribute stop good
    obtain ⟨more, log', clean', reads'⟩ := ih
    refine ⟨(keepDirective a).1 ++ more, log ++ (keepDirective a).2 ++ log',
      by simp [clean, clean', clean_keepDirective], fun rest hrest => ?_⟩
    rw [List.append_assoc, List.cons_append,
      readAttributeList_of_open stop (startsWith_attribute good (by decide) _),
      reads _ (by simp [Token.startsWith, comma])]
    simp [Parsed.andThen, readFurther, comma, reads' rest hrest]

/-! ## Groups of attributes -/

theorem honest_readGroup (tokens : List Token) :
    (readGroup stop tokens).Honest :=
  (honest_readAttributeList stop tokens).andThen fun _ _ =>
    (honest_expect stop _ rfl _).andThen fun _ _ =>
      (honest_expect stop _ rfl _).andThen fun _ _ => Parsed.honest_done _ _

theorem consumes_readGroup (tokens : List Token) :
    (readGroup stop tokens).Consumes tokens fun _ eaten => ∃ inside c d,
          eaten = inside ++ [c, d] ∧ Grammar.AttributeList inside ∧
          c.kind = .rbracket ∧ d.kind = .rbracket := by
  apply (consumes_readAttributeList stop tokens).andThen
  intro _ inside rest _ good
  apply (consumes_expect stop _ _ rest).andThen
  intro _ _ rest _ hc
  apply (consumes_expect stop _ _ rest).andThen
  intro _ _ rest _ hd
  obtain ⟨rfl, hc⟩ := hc
  obtain ⟨rfl, hd⟩ := hd
  exact Parsed.consumes_nothing ⟨inside, _, _, by simp, good, hc, hd⟩

theorem reads_readGroup {inside : List Token}
    {c d : Token} (good : Grammar.AttributeList inside)
    (hc : c.kind = .rbracket) (hd : d.kind = .rbracket) :
    Reads (readGroup stop) (inside ++ [c, d]) fun _ => True := by
  refine Reads.andThen (reads_readAttributeList stop good) (fun _ => ?_)
    fun rest _ => ?_
  · exact Reads.andThen (reads_expect stop _ hc)
      (fun _ => (reads_expect stop _ hd).andDone _)
      fun _ _ => trivial
  · simp [Token.startsWith, hc]

theorem honest_readAttributes (tokens : List Token) :
    (readAttributes stop tokens).Honest := by
  fun_induction readAttributes stop tokens with
  | case1 a b inside _ rest log found =>
    have group := honest_readGroup stop inside
    rwa [found] at group
  | case2 a b inside _ value rest log found _ tail ih =>
    have group := honest_readGroup stop inside
    rw [found] at group
    simp_all [Parsed.Honest, Log.hasErrors_append, tail]
  | case3 => exact Parsed.honest_done _ _
  | case4 => exact Parsed.honest_done _ _

theorem consumes_readAttributes (tokens : List Token) :
    (readAttributes stop tokens).Consumes tokens
      fun _ eaten => Attributes eaten := by
  fun_induction readAttributes stop tokens with
  | case1 => intro _ found; simp at found
  | case2 a b inside opens value rest log found _ tail ih =>
    obtain ⟨_, whole, list, c, d, rfl, good, hc, hd⟩ :=
      consumes_readGroup stop inside value (by rw [found])
    rw [found] at whole
    intro result same
    obtain ⟨more, inner, -⟩ := Option.map_eq_some_iff.mp same
    obtain ⟨others, rest', good'⟩ := ih more inner
    refine ⟨a :: b :: list ++ c :: d :: others, ?_,
      .cons opens.1 opens.2 good hc hd good'⟩
    rw [whole]
    simpa using rest'
  | case3 => exact Parsed.consumes_nothing .nil
  | case4 => exact Parsed.consumes_nothing .nil

/-- Reading attributes goes on while further ones open. -/
theorem opensAttributes_of_readAttributes (tokens : List Token)
    {value : List Decl.Attribute}
    (h : (readAttributes stop tokens).value = some value) :
    opensAttributes (readAttributes stop tokens).rest = false := by
  fun_induction readAttributes stop tokens generalizing value with
  | case1 => simp at h
  | case2 =>
    rename_i ih
    obtain ⟨more, inner, -⟩ := Option.map_eq_some_iff.mp h
    exact ih inner
  | case3 a b inside closed =>
    simpa [Parsed.done, opensAttributes] using closed
  | case4 tokens short =>
    cases tokens with
    | nil => rfl
    | cons a tokens =>
      cases tokens with
      | nil => rfl
      | cons b tokens => exact absurd rfl (short a b tokens)

theorem readAttributes_of_closed {tokens : List Token}
    (h : opensAttributes tokens = false) :
    readAttributes stop tokens = .done [] tokens := by
  rw [readAttributes.eq_def]
  split
  · rename_i a b inside
    have closed : ¬(a.kind = .lbracket ∧ b.kind = .lbracket) := by
      simpa [opensAttributes] using h
    rw [if_neg closed]
  · rfl

/-- The step of attributes without the bookkeeping for its end. -/
theorem readAttributes_of_open {a b : Token} (ha : a.kind = .lbracket)
    (hb : b.kind = .lbracket) (inside : List Token) :
    readAttributes stop (a :: b :: inside) =
      (readGroup stop inside).andThen fun group rest =>
        (readAttributes stop rest).andThen
          fun more rest => .done (group ++ more) rest := by
  rw [readAttributes.eq_def]
  simp only [ha, hb, and_self, if_true]
  split
  · rename_i found
    rw [found]
    rfl
  · rename_i rest _ found
    simp only [found, Parsed.andThen]
    rcases readAttributes stop rest with ⟨_ | more, left, log⟩ <;>
        simp [Parsed.done]

/-- Attributes are read up to anything that does not open further ones. -/
theorem reads_readAttributes {tokens : List Token} (h : Attributes tokens) :
    Reads (readAttributes stop) tokens
      fun rest => opensAttributes rest = false := by
  induction h with
  | nil =>
    exact ⟨[], [], Log.clean_nil,
      fun rest hrest => readAttributes_of_closed stop hrest⟩
  | @cons a b c d inside others ha hb good hc hd _ ih =>
    obtain ⟨group, log, clean, reads⟩ := reads_readGroup stop good hc hd
    obtain ⟨more, log', clean', reads'⟩ := ih
    refine ⟨group ++ more, log ++ log', by simp [clean, clean'], ?_⟩
    intro rest hrest
    have step := reads (others ++ rest) trivial
    simp only [List.append_assoc, List.cons_append, List.nil_append] at step ⊢
    rw [readAttributes_of_open stop ha hb, step]
    simp [Parsed.andThen, Parsed.done, reads' rest hrest]

end
end Decl
end MirrorAdapter
