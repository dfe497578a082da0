import MirrorAdapter.Decl.Parsed
import MirrorAdapter.Token.Spelling

/-!
# Reading template parameters

Parameters are split at commas, and the list ends at a `>`, where no bracket
is open. The count of open brackets takes all shapes together and may fall
below zero, after which neither mark is at depth zero.
-/
namespace MirrorAdapter
namespace Decl

section
variable (stop : Token)

/-- The parameter that a stretch of tokens declares, or what is wrong with it;
an empty stretch is blamed on what follows it. -/
def templateParam (following : List Token) (tokens : List Token) :
    Except Diagnostic LocatedParam :=
  match tokens with
  | [] => .error (Fault.emptyTemplateParam.report (place stop following))
  | first :: more =>
    match tokens.find? (·.kind = .equal) with
    | some equal => .error (Fault.templateDefault.report equal.location)
    | none =>
      match more.getLast? with
      | none => .error (Fault.unnamedTemplateParam.report first.location)
      | some last =>
        if last.kind = .identifier then
          .ok
            { declaration := Token.spell tokens, name := last.text,
              location := first.location }
        else .error (Fault.unnamedTemplateParam.report first.location)

/-- The parameters up to the closing `>`: `depth` brackets are open, and
`taken` is what has been read of the parameter at hand. -/
def readParams (depth : Int) (taken : List Token) :
    List Token → Parsed (List LocatedParam)
  | [] => blame stop .unterminatedTemplateList []
  | t :: ts =>
    if depth = 0 ∧ t.kind = .greater then
      match templateParam stop ts taken with
      | .ok param => .done [param] ts
      | .error report => .giveUp ts report
    else if depth = 0 ∧ t.kind = .comma then
      match templateParam stop ts taken with
      | .ok param =>
        (readParams 0 [] ts).andThen
          fun params rest => .done (param :: params) rest
      | .error report => .giveUp ts report
    else readParams (depth + t.kind.nesting) (taken ++ [t]) ts

/-- The template clause of a mirror type; without one there are no
parameters. -/
def readTemplate (tokens : List Token) : Parsed (List LocatedParam) :=
  match tokens with
  | [] => .done [] []
  | t :: ts =>
    if t.isWord "template" then
      (expect stop .less .missingTemplateList ts).andThen
        fun _ rest => readParams stop 0 [] rest
    else .done [] (t :: ts)

theorem within_readParams (depth : Int) (taken tokens : List Token) :
    (readParams stop depth taken tokens).Within tokens := by
  fun_induction readParams stop depth taken tokens with
  | case1 => exact within_blame stop _ _
  | case2 => exact (Parsed.within_done _ _).cons _
  | case3 => exact (Parsed.within_giveUp _ _).cons _
  | case4 _ _ _ _ _ _ _ _ ih =>
    exact (ih.cons _).andThen fun _ _ => Parsed.within_done _ _
  | case5 => exact (Parsed.within_giveUp _ _).cons _
  | case6 _ _ _ _ _ _ ih => exact ih.cons _

theorem within_readTemplate (tokens : List Token) :
    (readTemplate stop tokens).Within tokens := by
  unfold readTemplate
  split
  · exact Parsed.within_done _ _
  · split
    · exact ((within_expect stop _ _ _).andThen
          fun _ _ => within_readParams stop _ _ _).cons _
    · exact Parsed.within_done _ _

end
end Decl
end MirrorAdapter
