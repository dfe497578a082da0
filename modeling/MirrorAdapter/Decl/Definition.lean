import MirrorAdapter.Decl.Member
import MirrorAdapter.Decl.TemplateList

/-!
# Reading mirror definitions

A definition is read in two parts, what stands before its body and the body.
It yields a mirror type only if nothing in it was malformed. A malformed
definition may have been passed as a whole; otherwise the caller skips to the
end of the statement it was left in.
-/
namespace MirrorAdapter
namespace Decl

/-- What stands before the body of a definition. -/
structure Head where
  name : Text
  location : Location
  isClass : Bool
  templateParams : List LocatedParam
  attributes : List Attribute

/-- What reading a definition yields: the mirror type if it is sound, and
whether its end has been passed. -/
structure Definition where
  mirror : Option Mirror := none
  complete : Bool := false
  rest : List Token
  log : Log

/-- Where reading goes on after a definition. -/
def Definition.next (d : Definition) : List Token :=
  if d.complete then d.rest else skipStatement 0 d.rest

section
variable (stop : Token)

/-- Tells a class from a struct. -/
def readKeyword (tokens : List Token) : Parsed Bool :=
  match tokens with
  | [] => blame stop (.notADefinition stop.text) []
  | t :: ts =>
    if t.isWord "struct" then .done false ts
    else if t.isWord "class" then .done true ts
    else blame stop (.notADefinition t.text) (t :: ts)

def readHead (tokens : List Token) : Parsed Head :=
  (readAttributes stop tokens).andThen fun leading rest =>
  (readTemplate stop rest).andThen fun templateParams rest =>
  (readAttributes stop rest).andThen fun middle rest =>
  (readKeyword stop rest).andThen fun isClass rest =>
  (readAttributes stop rest).andThen fun trailing rest =>
  (expect stop .identifier .missingMirrorName rest).andThen fun name rest =>
    .done
      { name := name.text
        location := name.location
        isClass
        templateParams
        attributes := leading ++ middle ++ trailing } rest

/-- The end of a definition after its members. -/
def finish (scope : List Text) (head : Head) (body : Body) : Definition :=
  let closing :=
    (expect stop .rbrace .unclosedBody body.rest).andThen fun _ rest =>
    expect stop .semicolon .unterminatedMirror rest
  let mirror : Mirror :=
    { name := head.name
      location := head.location
      scope
      isClass := head.isClass
      templateParams := head.templateParams
      attributes := head.attributes
      fields := body.fields }
  { mirror := if closing.value.isSome && body.sound then some mirror else none
    complete := closing.value.isSome
    rest := closing.rest
    log := body.log ++ closing.log }

/-- A definition after its head. A declaration without a body is passed; base
classes and anything else in place of a body are left to be skipped. -/
def readDefinition (scope : List Text) (head : Head) (tokens : List Token) :
    Definition :=
  match tokens with
  | [] => { rest := [], log := [Fault.missingBody.report stop.location] }
  | t :: ts =>
    match t.kind with
    | .semicolon =>
      { complete := true, rest := ts,
        log := [(Fault.forwardDeclaration head.name).report head.location] }
    | .colon =>
      { rest := t :: ts,
        log := [(Fault.baseClasses head.name).report t.location] }
    | .lbrace => finish stop scope head (readBody stop ts)
    | _ => { rest := t :: ts, log := [Fault.missingBody.report t.location] }

/-- A mirror type in the given namespace. -/
def readMirror (scope : List Text) (tokens : List Token) : Definition :=
  match readHead stop tokens with
  | ⟨none, rest, log⟩ => { rest, log }
  | ⟨some head, rest, log⟩ =>
    let definition := readDefinition stop scope head rest
    { definition with log := log ++ definition.log }

theorem within_readKeyword (tokens : List Token) :
    (readKeyword stop tokens).Within tokens := by
  unfold readKeyword
  split
  · exact within_blame stop _ _
  · split
    · exact (Parsed.within_done _ _).cons _
    · split
      · exact (Parsed.within_done _ _).cons _
      · exact within_blame stop _ _

theorem within_readHead (tokens : List Token) :
    (readHead stop tokens).Within tokens :=
  (within_readAttributes stop _).andThen fun _ _ =>
    (within_readTemplate stop _).andThen fun _ _ =>
      (within_readAttributes stop _).andThen fun _ _ =>
        (within_readKeyword stop _).andThen fun _ _ =>
          (within_readAttributes stop _).andThen
            fun _ _ => (within_expect stop _ _ _).andThen
                fun _ _ => Parsed.within_done _ _

theorem finish_suffix (scope : List Text) (head : Head) (body : Body) :
    (finish stop scope head body).rest <:+ body.rest :=
  Parsed.Within.andThen (within_expect stop _ _ _)
    fun _ _ => within_expect stop _ _ _

theorem readDefinition_suffix (scope : List Text)
    (head : Head) (tokens : List Token) :
    (readDefinition stop scope head tokens).rest <:+ tokens := by
  unfold readDefinition
  split
  · exact List.suffix_refl _
  · split
    · exact List.suffix_cons _ _
    · exact List.suffix_refl _
    · exact (finish_suffix stop _ _ _).trans
        ((readBody_suffix stop _).trans (List.suffix_cons _ _))
    · exact List.suffix_refl _

theorem readMirror_suffix (scope : List Text) (tokens : List Token) :
    (readMirror stop scope tokens).rest <:+ tokens := by
  have within := within_readHead stop tokens
  unfold readMirror
  split
  · rename_i h
    rwa [h] at within
  · rename_i head rest log h
    rw [h] at within
    exact (readDefinition_suffix stop scope head rest).trans within

/-- The end of a definition that has been passed lies behind its body's
opening mark. -/
theorem readDefinition_complete_lt {scope : List Text}
    {head : Head} {tokens : List Token}
    (h : (readDefinition stop scope head tokens).complete = true) :
    (readDefinition stop scope head tokens).rest.length < tokens.length := by
  match tokens with
  | [] => simp [readDefinition] at h
  | t :: ts =>
    unfold readDefinition at h ⊢
    dsimp only at h ⊢
    split at h
    · simp
    · simp at h
    · have inside :=
        (finish_suffix stop scope head (readBody stop ts)).trans
          (readBody_suffix stop ts)
      exact Nat.lt_succ_of_le inside.length_le
    · simp at h

/-- Reading a definition goes on behind its first token, unless that is a
closing brace. -/
theorem readMirror_next_lt (scope : List Text) {t : Token}
    (h : t.kind ≠ .rbrace) (ts : List Token) :
    (readMirror stop scope (t :: ts)).next.length < (t :: ts).length := by
  unfold Definition.next
  split
  · rename_i complete
    have within := within_readHead stop (t :: ts)
    unfold readMirror at complete ⊢
    split at complete
    · simp at complete
    · rename_i head rest log found
      rw [found] at within
      have shorter := readDefinition_complete_lt stop complete
      exact Nat.lt_of_lt_of_le shorter (List.IsSuffix.length_le within)
  · exact skipStatement_within_lt h (readMirror_suffix stop scope _)

end
end Decl
end MirrorAdapter
