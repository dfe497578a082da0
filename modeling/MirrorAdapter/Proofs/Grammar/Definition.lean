import MirrorAdapter.Decl.Definition
import MirrorAdapter.Proofs.Grammar.Members
import MirrorAdapter.Proofs.Grammar.Template

/-!
# Definitions and their grammar

A definition is read without errors exactly where the grammar derives it. What
its last semicolon is worth is kept apart, since reading goes on at that point
when it is missing.
-/
namespace MirrorAdapter
namespace Grammar

theorem isKeyword_kind {t : Token} (h : isKeyword t) :
    t.kind = .identifier := by
  simp only [isKeyword, Bool.or_eq_true] at h
  rcases h with word | word <;> exact Token.kind_of_isWord word

/-- A keyword is no other word. -/
theorem isKeyword_other {t : Token} (h : isKeyword t)
    {other : Text} (struct : ("struct" : Text) ≠ other)
    (notClass : ("class" : Text) ≠ other) : t.isWord other = false := by
  simp only [isKeyword, Bool.or_eq_true] at h
  rcases h with word | word
  · exact Token.isWord_of_ne word struct
  · exact Token.isWord_of_ne word notClass

/-- What starts a definition: an attribute, a template clause or a keyword. -/
def startsMirror (t : Token) : Bool :=
  t.kind == .lbracket || t.isWord "template" || isKeyword t

theorem Attributes.starts {tokens : List Token} (h : Attributes tokens) :
    tokens = [] ∨ ∃ t rest, tokens = t :: rest ∧ t.kind = .lbracket := by
  cases h with
  | nil => exact .inl rfl
  | cons opens _ _ _ _ _ => exact .inr ⟨_, _, rfl, opens⟩

theorem Head.starts {head : List Token} {name : Token} (h : Head head name) :
    ∃ t rest, head = t :: rest ∧ startsMirror t := by
  cases h with
  | @mk before attributes keyword _ prelude word _ _ =>
    cases prelude with
    | plain good =>
      rcases good.starts with rfl | ⟨t, rest, rfl, kind⟩
      · exact ⟨keyword, _, rfl, by simp [startsMirror, word]⟩
      · exact ⟨t, _, rfl, by simp [startsMirror, kind]⟩
    | @template leading clause trailing good clause _ =>
      rcases good.starts with rfl | ⟨t, rest, rfl, kind⟩
      · cases clause with
        | mk named _ _ _ => exact ⟨_, _, rfl, by simp [startsMirror, named]⟩
      · exact ⟨t, _, rfl, by simp [startsMirror, kind]⟩

theorem Unterminated.starts {definition : List Token}
    (h : Unterminated definition) :
    ∃ t rest, definition = t :: rest ∧ startsMirror t := by
  cases h with
  | mk head _ _ _ =>
    obtain ⟨t, rest, rfl, good⟩ := head.starts
    exact ⟨t, _, rfl, good⟩

end Grammar

namespace Decl

open Grammar (Attributes FieldsOf Unterminated isKeyword opensAttributes)

section
variable (stop : Token)

/-! ## Heads -/

theorem honest_readKeyword (tokens : List Token) :
    (readKeyword stop tokens).Honest := by
  unfold readKeyword
  split
  · exact honest_blame stop rfl _
  · split
    · exact Parsed.honest_done _ _
    · split
      · exact Parsed.honest_done _ _
      · exact honest_blame stop rfl _

theorem consumes_readKeyword (tokens : List Token) :
    (readKeyword stop tokens).Consumes tokens
      fun _ eaten => ∃ t, eaten = [t] ∧ isKeyword t := by
  unfold readKeyword
  split
  · exact Parsed.consumes_giveUp _ _ _ _
  · rename_i t ts
    split
    · rename_i word
      exact Parsed.consumes_done [t] ⟨t, rfl, by simp [isKeyword, word]⟩
    · split
      · rename_i word
        exact Parsed.consumes_done [t] ⟨t, rfl, by simp [isKeyword, word]⟩
      · exact Parsed.consumes_giveUp _ _ _ _

theorem reads_readKeyword {t : Token} (h : isKeyword t) :
    Reads (readKeyword stop) [t] fun _ => True := by
  cases isStruct : t.isWord "struct" with
  | true =>
    exact ⟨false, [], Log.clean_nil,
      fun rest _ => by simp [readKeyword, isStruct, Parsed.done]⟩
  | false =>
    have isClass : t.isWord "class" = true := by
      simpa [isKeyword, isStruct] using h
    exact ⟨true, [], Log.clean_nil,
      fun rest _ => by simp [readKeyword, isStruct, isClass, Parsed.done]⟩

theorem honest_readHead (tokens : List Token) :
    (readHead stop tokens).Honest :=
  (honest_readAttributes stop _).andThen fun _ _ =>
    (honest_readTemplate stop _).andThen fun _ _ =>
      (honest_readAttributes stop _).andThen fun _ _ =>
        (honest_readKeyword stop _).andThen fun _ _ =>
          (honest_readAttributes stop _).andThen
            fun _ _ => (honest_expect stop _ rfl _).andThen
                fun _ _ => Parsed.honest_done _ _

theorem consumes_readHead (tokens : List Token) :
    (readHead stop tokens).Consumes tokens
      fun head eaten => ∃ front name params, eaten = front ++ [name] ∧
          Grammar.HeadOf front name params ∧ head.name = name.text ∧
          head.location = name.location ∧ List.Forall₂ DeclaresParam params
            (head.templateParams.map (·.toTemplateParam)) := by
  apply (consumes_readAttributes stop tokens).andThen
  intro _ leading rest _ hleading
  apply (consumes_readTemplate stop rest).andThen
  intro _ clause rest _ hclause
  apply (consumes_readAttributes stop rest).andThen
  intro _ middle rest _ hmiddle
  apply (consumes_readKeyword stop rest).andThen
  intro _ _ rest _ hkeyword
  apply (consumes_readAttributes stop rest).andThen
  intro _ trailing rest _ htrailing
  apply (consumes_expect stop .identifier _ rest).andThen
  intro name _ rest _ hname
  obtain ⟨params, hclause, declared⟩ := hclause
  obtain ⟨keyword, rfl, hkeyword⟩ := hkeyword
  obtain ⟨rfl, hname⟩ := hname
  exact Parsed.consumes_nothing ⟨_, name, params, by simp,
    .mk hleading hclause hmiddle hkeyword htrailing hname, rfl, rfl, declared⟩

/-- The keyword, the name and the attributes around the former. -/
theorem reads_afterTemplate {middle attributes : List Token}
    {keyword name : Token} (before : Attributes middle)
    (word : isKeyword keyword) (good : Attributes attributes)
    (named : name.kind = .identifier)
    (form : List Attribute → Bool → List Attribute → Token → Head) :
    Reads (fun tokens => (readAttributes stop tokens).andThen fun middle rest =>
      (readKeyword stop rest).andThen fun isClass rest =>
        (readAttributes stop rest).andThen fun trailing rest =>
          (expect stop .identifier .missingMirrorName rest).andThen
            fun name rest => .done (form middle isClass trailing name) rest)
      (middle ++ ([keyword] ++ (attributes ++ [name]))) fun _ => True := by
  have noAttributes {t : Token} (kind : t.kind = .identifier)
      (rest : List Token) : opensAttributes (t :: rest) = false := by
    cases rest <;> simp [opensAttributes, kind]
  refine (reads_readAttributes stop before).andThen (fun _ => ?_)
    fun rest _ => ?_
  · refine (reads_readKeyword stop word).andThen (fun _ => ?_)
      fun _ _ => trivial
    refine (reads_readAttributes stop good).andThen (fun _ => ?_)
      fun rest _ => noAttributes named rest
    exact (reads_expect stop _ named).andDone _
  · exact noAttributes (Grammar.isKeyword_kind word) _

/-- A head is read whatever follows its name. -/
theorem reads_readHead {front : List Token}
    {name : Token} (h : Grammar.Head front name) :
    Reads (readHead stop) (front ++ [name]) fun _ => True := by
  cases h with
  | @mk before attributes keyword _ prelude word good named =>
    have kind := Grammar.isKeyword_kind word
    cases prelude with
    -- Without a clause all attributes are read in front of where it could
    -- stand, and none behind.
    | plain leading =>
      have whole :
          Reads (readHead stop)
            (before ++ ([] ++ ([] ++ ([keyword] ++ (attributes ++ [name])))))
          fun _ => True := by
        refine (reads_readAttributes stop leading).andThen (fun _ => ?_)
          fun rest _ => ?_
        · refine (reads_noTemplate stop).andThen (fun _ => ?_)
            fun rest _ t ts first => ?_
          · exact reads_afterTemplate stop .nil word good named _
          · cases first
            exact Grammar.isKeyword_other word (by decide) (by decide)
        · cases attributes <;> simp [opensAttributes, kind]
      simpa using whole
    | @template leading clause trailing leads hclause trails =>
      have whole :
          Reads (readHead stop) (leading ++
            (clause ++ (trailing ++ ([keyword] ++ (attributes ++ [name])))))
          fun _ => True := by
        refine (reads_readAttributes stop leads).andThen (fun _ => ?_)
          fun rest _ => ?_
        · refine (reads_readTemplate stop hclause).andThen (fun _ => ?_)
            fun _ _ => trivial
          exact reads_afterTemplate stop trails word good named _
        · cases hclause with
          | mk named _ _ _ =>
            simp [opensAttributes, Token.kind_of_isWord named]
      simpa using whole

/-! ## Definitions -/

/-- The closing brace of a body and the semicolon after it. -/
theorem honest_ending (tokens : List Token) :
    ((expect stop .rbrace .unclosedBody tokens).andThen fun _ rest =>
      expect stop .semicolon .unterminatedMirror rest).Honest :=
  (honest_expect stop _ rfl _).andThen fun _ _ => honest_expect stop _ rfl _

theorem consumes_ending (tokens : List Token) :
    ((expect stop .rbrace .unclosedBody tokens).andThen fun _ rest =>
      expect stop .semicolon .unterminatedMirror rest).Consumes tokens
        fun _ eaten =>
        ∃ r semicolon, eaten = [r, semicolon] ∧ r.kind = .rbrace ∧
          semicolon.kind = .semicolon := by
  apply (consumes_expect stop _ _ tokens).andThen
  intro r _ rest _ hr
  apply (consumes_expect stop _ _ rest).mono
  intro semicolon _ hsemicolon
  obtain ⟨rfl, closes⟩ := hr
  obtain ⟨rfl, ends⟩ := hsemicolon
  exact ⟨r, semicolon, rfl, closes, ends⟩

/-- A definition yields a mirror type iff it reports no error. -/
theorem honest_readMirror (scope : List Text) (tokens : List Token) :
    (readMirror stop scope tokens).log.Clean ↔
      ∃ mirror, (readMirror stop scope tokens).mirror = some mirror := by
  have before := honest_readHead stop tokens
  unfold readMirror
  split
  · rename_i found
    rw [found] at before
    simp [before.clean_iff]
  · rename_i head rest log found
    rw [found] at before
    have clean : log.Clean := before.clean_iff.mpr ⟨head, rfl⟩
    simp only [Log.clean_append, clean, true_and]
    unfold readDefinition
    split
    · simpa using not_clean_report rfl _
    · split
      · simpa using not_clean_report rfl _
      · simpa using not_clean_report rfl _
      · rename_i ts _ _
        have body := honest_readBody stop ts
        have ending := (honest_ending stop (readBody stop ts).rest).clean_iff
        simp only [finish, Log.clean_append, body, ending]
        cases (readBody stop ts).sound <;> simp [← Option.isSome_iff_exists]
      · simpa using not_clean_report rfl _

/-- What was taken by a definition that yields a mirror type, and what the
type has from there. -/
theorem definition_of_readMirror {scope : List Text}
    {tokens : List Token} {mirror : Mirror}
    (h : (readMirror stop scope tokens).mirror = some mirror) :
    (readMirror stop scope tokens).complete = true ∧
    ∃ front name l members r semicolon fields,
      tokens = front ++ name :: l :: members ++ r ::
          semicolon :: (readMirror stop scope tokens).rest ∧
      Grammar.Head front name ∧ l.kind = .lbrace ∧ FieldsOf members fields ∧
      r.kind = .rbrace ∧ semicolon.kind = .semicolon ∧
      mirror.name = name.text ∧ mirror.location = name.location ∧
      mirror.scope = scope ∧ List.Forall₂ Declares fields mirror.fields := by
  have before := consumes_readHead stop tokens
  unfold readMirror at h ⊢
  split at h
  · simp at h
  · rename_i head rest log found
    obtain ⟨_, whole, front, name, _, rfl, good, named, placed, -⟩ :=
      before head (by rw [found])
    rw [found] at whole
    simp only at h ⊢
    unfold readDefinition at h ⊢
    split at h
    · simp at h
    · rename_i l ts
      split at h
      · simp at h
      · simp at h
      · rename_i opens
        simp only [finish] at h ⊢
        split at h
        · rename_i sound
          simp only [Bool.and_eq_true, Option.isSome_iff_exists] at sound
          obtain ⟨⟨_, ended⟩, sound⟩ := sound
          obtain ⟨members, fields, inside, hmembers, declared⟩ :=
            fields_of_readBody stop ts sound
          obtain ⟨_, rest, r, semicolon, rfl, closes, ends⟩ :=
            consumes_ending stop _ _ ended
          cases h
          refine ⟨by rw [ended]; rfl, front, name, l, members,
            r, semicolon, fields, ?_, good.head, opens,
            hmembers, closes, ends, named, placed, rfl, declared⟩
          have tail := inside.trans (congrArg (members ++ ·) rest)
          refine whole.trans
            ((congrArg (front ++ [name] ++ l :: ·) tail).trans ?_)
          simp
        · simp at h
      · simp at h

/-- A mirror type has its name and its template parameters from its head. -/
theorem eq_head_of_readDefinition {scope : List Text}
    {head : Head} {tokens : List Token} {mirror : Mirror}
    (h : (readDefinition stop scope head tokens).mirror = some mirror) :
    mirror.name = head.name ∧ mirror.location = head.location ∧
    mirror.templateParams = head.templateParams := by
  unfold readDefinition at h
  split at h
  · cases h
  · split at h <;> try cases h
    simp only [finish] at h
    split at h
    · cases h
      exact ⟨rfl, rfl, rfl⟩
    · cases h

/-- The head that was taken by a definition that yields a mirror type. -/
theorem head_of_readMirror {scope : List Text}
    {tokens : List Token} {mirror : Mirror}
    (h : (readMirror stop scope tokens).mirror = some mirror) :
    ∃ front name params,
      front ++ [name] <+: tokens ∧ Grammar.HeadOf front name params ∧
      mirror.name = name.text ∧ mirror.location = name.location ∧
      List.Forall₂ DeclaresParam params
        (mirror.templateParams.map (·.toTemplateParam)) := by
  have before := consumes_readHead stop tokens
  unfold readMirror at h
  split at h
  · cases h
  · rename_i head rest log found
    obtain ⟨_, whole, front, name, params, rfl,
          good, named, placed, declared⟩ :=
      before head (by rw [found])
    obtain ⟨name_eq, location_eq, params_eq⟩ :=
      eq_head_of_readDefinition stop h
    exact ⟨front, name, params, ⟨_, whole.symm⟩, good, name_eq.trans named,
      location_eq.trans placed, params_eq ▸ declared⟩

/-- A definition is read up to its last semicolon, which decides what comes of
it. -/
theorem readMirror_of_unterminated {definition : List Token}
    (h : Unterminated definition) (scope : List Text) :
    ∃ mirror log,
      Log.Clean log ∧ ∀ rest, readMirror stop scope (definition ++ rest) =
        let ending := expect stop .semicolon .unterminatedMirror rest
        { mirror := if ending.value.isSome then some mirror else none
          complete := ending.value.isSome
          rest := ending.rest
          log := log ++ ending.log } := by
  cases h with
  | @mk front members name l r head opens good closes =>
    obtain ⟨found, log, clean, reads⟩ := reads_readHead stop head
    obtain ⟨fields, log', clean', reads'⟩ := readBody_of_members stop good
    refine ⟨⟨found.name, found.location, scope, found.isClass,
        found.templateParams, found.attributes, fields⟩,
      log ++ log', by simp [clean, clean'], fun rest => ?_⟩
    have first := reads (l :: (members ++ r :: rest)) trivial
    have body := reads' (r :: rest) (by simp [Token.startsWith, closes])
    have closing := expect_of_kind stop .unclosedBody closes rest
    simp only [List.append_assoc, List.cons_append, List.nil_append] at first ⊢
    simp [readMirror, first, readDefinition, opens, finish, body, closing,
      Parsed.andThen]

end
end Decl
end MirrorAdapter
