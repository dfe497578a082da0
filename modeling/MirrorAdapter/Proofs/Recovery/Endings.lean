import MirrorAdapter.Proofs.Recovery.Isolation

/-!
# Files one behind the other

Reading asks for the end of the file only where something is missing there, so
a step that yields a value yields it whatever ends the file (`Parsed.Agrees`),
and what is read without errors has the same content in front of anything
else. Tokens without errors followed by any others are therefore read as the
two would be read alone.
-/
namespace MirrorAdapter
namespace Decl

namespace Parsed

variable {α β : Type}

/-- Where the first outcome has a value, the second is the same. -/
def Agrees (p p' : Parsed α) : Prop := ∀ value, p.value = some value → p' = p

theorem agrees_refl (p : Parsed α) : p.Agrees p := fun _ _ => rfl

theorem agrees_giveUp (rest : List Token) (report : Diagnostic)
    (p' : Parsed α) : (giveUp rest report).Agrees p' := by
  intro value h
  cases h

theorem Agrees.andThen {p p' : Parsed α}
    {second second' : α → List Token → Parsed β} (h : p.Agrees p')
    (h' : ∀ value rest, (second value rest).Agrees (second' value rest)) :
    (p.andThen second).Agrees (p'.andThen second') := by
  intro result found
  obtain ⟨value, rest, log⟩ := p
  cases value with
  | none => cases found
  | some value =>
    rw [h value rfl]
    simp only [Parsed.andThen] at found ⊢
    rw [h' value rest result found]

end Parsed

open Parsed (agrees_refl agrees_giveUp)

section
variable (stop stop' : Token) (tokens : List Token)

/-! ## Steps -/

theorem agrees_expect (kind : Token.Kind) (fault : Fault) :
    (expect stop kind fault tokens).Agrees
      (expect stop' kind fault tokens) := by
  unfold expect
  split
  · exact agrees_giveUp _ _ _
  · split
    · exact agrees_refl _
    · exact agrees_giveUp _ _ _

theorem agrees_readAttributeName :
    (readAttributeName stop tokens).Agrees
      (readAttributeName stop' tokens) := by
  unfold readAttributeName
  split
  · exact agrees_giveUp _ _ _
  · split
    · split
      · exact agrees_refl _
      · exact agrees_giveUp _ _ _
    · exact agrees_giveUp _ _ _

theorem agrees_readArguments (name : Text) :
    (readArguments stop name tokens).Agrees
      (readArguments stop' name tokens) := by
  unfold readArguments
  split
  · exact agrees_refl _
  · split
    · exact (agrees_expect stop stop' _ _ _).andThen fun _ _ => agrees_refl _
    · exact agrees_refl _

theorem agrees_readAttribute :
    (readAttribute stop tokens).Agrees (readAttribute stop' tokens) :=
  (agrees_readAttributeName stop stop' tokens).andThen fun _ _ =>
    (agrees_readArguments stop stop' _ _).andThen fun _ _ => agrees_refl _

theorem agrees_readAttributeList :
    (readAttributeList stop tokens).Agrees
      (readAttributeList stop' tokens) := by
  fun_induction readAttributeList stop tokens with
  | case1 tokens closed =>
    rw [readAttributeList, if_pos closed]
    exact agrees_refl _
  | case2 => exact fun _ found => absurd found (Option.some_ne_none _).symm
  | case3 tokens closed a log found =>
    have same := agrees_readAttribute stop stop' tokens a (by rw [found])
    rw [readAttributeList_of_open stop' (by simpa using closed), same, found]
    exact agrees_refl _
  | case4 tokens closed a c rest log found comma _ tail ih =>
    have same := agrees_readAttribute stop stop' tokens a (by rw [found])
    intro value done
    obtain ⟨others, later, -⟩ := Option.map_eq_some_iff.mp done
    rw [readAttributeList_of_open stop' (by simpa using closed), same, found]
    simp [Parsed.andThen, readFurther, comma, ih others later, tail]
  | case5 tokens closed a c rest log found comma =>
    have same := agrees_readAttribute stop stop' tokens a (by rw [found])
    rw [readAttributeList_of_open stop' (by simpa using closed), same, found]
    simp only [Parsed.andThen, readFurther, if_neg comma]
    exact agrees_refl _

theorem agrees_readGroup :
    (readGroup stop tokens).Agrees (readGroup stop' tokens) :=
  (agrees_readAttributeList stop stop' tokens).andThen fun _ _ =>
    (agrees_expect stop stop' _ _ _).andThen fun _ _ =>
      (agrees_expect stop stop' _ _ _).andThen fun _ _ => agrees_refl _

theorem agrees_readAttributes :
    (readAttributes stop tokens).Agrees (readAttributes stop' tokens) := by
  fun_induction readAttributes stop tokens with
  | case1 => exact fun _ found => absurd found (Option.some_ne_none _).symm
  | case2 a b inside opens group rest log found _ tail ih =>
    have same := agrees_readGroup stop stop' inside group (by rw [found])
    intro value done
    obtain ⟨others, later, -⟩ := Option.map_eq_some_iff.mp done
    rw [readAttributes_of_open stop' opens.1 opens.2, same, found]
    simp only [Parsed.andThen, ih others later, tail] at later ⊢
    generalize readAttributes stop rest = p at later ⊢
    obtain ⟨_ | more, left, log'⟩ := p
    · cases later
    · simp [Parsed.done]
  | case3 a b inside closed =>
    rw [readAttributes_of_closed stop'
        (by simpa [Grammar.opensAttributes] using closed)]
    exact agrees_refl _
  | case4 tokens short =>
    have closed : Grammar.opensAttributes tokens = false := by
      unfold Grammar.opensAttributes
      split
      · exact absurd rfl (short _ _ _)
      · rfl
    rw [readAttributes_of_closed stop' closed]
    exact agrees_refl _

theorem agrees_readParams (depth : Int) (taken : List Token) :
    (readParams stop depth taken tokens).Agrees
      (readParams stop' depth taken tokens) := by
  -- What is wrong with a parameter may be blamed on the end of the file, what
  -- is right does not depend on it.
  have param (following inside : List Token) (p : LocatedParam)
      (h : templateParam stop following inside = .ok p) :
      templateParam stop' following inside = .ok p := by
    cases inside with
    | nil => cases h
    | cons => exact h
  fun_induction readParams stop depth taken tokens with
  | case1 => exact agrees_giveUp _ _ _
  | case2 depth taken t ts ends p found =>
    rw [readParams, if_pos ends, param _ _ p found]
    exact agrees_refl _
  | case3 => exact agrees_giveUp _ _ _
  | case4 depth taken t ts other ends p found ih =>
    rw [readParams, if_neg other, if_pos ends, param _ _ p found]
    exact ih.andThen fun _ _ => agrees_refl _
  | case5 => exact agrees_giveUp _ _ _
  | case6 depth taken t ts other inside ih =>
    rw [readParams, if_neg other, if_neg inside]
    exact ih

theorem agrees_readTemplate :
    (readTemplate stop tokens).Agrees (readTemplate stop' tokens) := by
  unfold readTemplate
  split
  · exact agrees_refl _
  · split
    · exact (agrees_expect stop stop' _ _ _).andThen
        fun _ _ => agrees_readParams stop stop' _ _ _
    · exact agrees_refl _

theorem agrees_readKeyword :
    (readKeyword stop tokens).Agrees (readKeyword stop' tokens) := by
  unfold readKeyword
  split
  · exact agrees_giveUp _ _ _
  · split
    · exact agrees_refl _
    · split
      · exact agrees_refl _
      · exact agrees_giveUp _ _ _

theorem agrees_readHead :
    (readHead stop tokens).Agrees (readHead stop' tokens) :=
  (agrees_readAttributes stop stop' _).andThen fun _ _ =>
    (agrees_readTemplate stop stop' _).andThen fun _ _ =>
      (agrees_readAttributes stop stop' _).andThen fun _ _ =>
        (agrees_readKeyword stop stop' _).andThen fun _ _ =>
          (agrees_readAttributes stop stop' _).andThen fun _ _ =>
            (agrees_expect stop stop' _ _ _).andThen fun _ _ => agrees_refl _

theorem agrees_readPlainField (attributes : List Attribute) :
    (readPlainField stop attributes tokens).Agrees
      (readPlainField stop' attributes tokens) := by
  unfold readPlainField
  dsimp only
  split
  · exact agrees_giveUp _ _ _
  · split
    · exact agrees_giveUp _ _ _
    · refine (agrees_expect stop stop' _ _ _).andThen fun _ _ => ?_
      split
      · exact agrees_refl _
      · exact agrees_giveUp _ _ _

theorem agrees_readField :
    (readField stop tokens).Agrees (readField stop' tokens) :=
  (agrees_readAttributes stop stop' tokens).andThen
    fun _ _ => agrees_readPlainField stop stop' _ _

theorem agrees_readInclude (hash : Location) :
    (readInclude stop hash tokens).Agrees (readInclude stop' hash tokens) := by
  cases tokens with
  | nil => exact agrees_giveUp _ _ _
  | cons => exact agrees_refl _

theorem agrees_readNamespace :
    (readNamespace stop tokens).Agrees (readNamespace stop' tokens) := by
  refine (agrees_expect stop stop' _ _ _).andThen fun _ rest => ?_
  split
  · exact agrees_giveUp _ _ _
  · exact (agrees_expect stop stop' _ _ _).andThen fun _ _ => agrees_refl _

/-! ## Definitions -/

theorem readBody_of_sound (sound : (readBody stop tokens).sound = true) :
    readBody stop' tokens = readBody stop tokens := by
  fun_induction readBody stop tokens with
  | case1 => rw [readBody]
  | case2 t ts closes => rw [readBody_cons, if_pos closes]
  | case3 t ts closes label _ ih =>
    have opens : Grammar.startsLabel (t :: ts) = true := by
      simp [Grammar.startsLabel_cons, label]
    rw [readBody_cons, if_neg closes, if_pos opens, if_pos label.1, ih sound]
  | case4 => cases sound
  | case5 t ts closes notPublic notPrivate field rest log found _ ih =>
    have same := agrees_readField stop stop' (t :: ts) field (by rw [found])
    have noLabel : Grammar.startsLabel (t :: ts) = false := by
      rw [Grammar.startsLabel_cons]
      grind
    rw [readBody_cons, if_neg closes, noLabel, same, found]
    simp [ih sound]
  | case6 => cases sound

theorem finish_of_mirror (scope : List Text) (head : Head) (body : Body)
    {m : Mirror} (h : (finish stop scope head body).mirror = some m) :
    finish stop' scope head body = finish stop scope head body := by
  have ending :
      ((expect stop .rbrace .unclosedBody body.rest).andThen
          fun _ rest => expect stop .semicolon .unterminatedMirror rest).Agrees
        ((expect stop' .rbrace .unclosedBody body.rest).andThen fun _ rest =>
          expect stop' .semicolon .unterminatedMirror rest) :=
    (agrees_expect stop stop' _ _ _).andThen
      fun _ _ => agrees_expect stop stop' _ _ _
  simp only [finish] at h ⊢
  split at h
  · rename_i sound
    simp only [Bool.and_eq_true, Option.isSome_iff_exists] at sound
    obtain ⟨⟨value, closed⟩, -⟩ := sound
    rw [ending value closed]
  · cases h

theorem readDefinition_of_mirror (scope : List Text) (head : Head) {m : Mirror}
    (h : (readDefinition stop scope head tokens).mirror = some m) :
    readDefinition stop' scope head tokens =
      readDefinition stop scope head tokens := by
  cases tokens with
  | nil => cases h
  | cons t ts =>
    simp only [readDefinition] at h ⊢
    split at h <;> try rfl
    have sound : (readBody stop ts).sound = true := by
      simp only [finish] at h
      split at h
      · rename_i both
        exact (Bool.and_eq_true_iff.mp both).2
      · cases h
    rw [readBody_of_sound stop stop' ts sound,
      finish_of_mirror stop stop' scope head _ h]

theorem readMirror_of_mirror (scope : List Text) {m : Mirror}
    (h : (readMirror stop scope tokens).mirror = some m) :
    readMirror stop' scope tokens = readMirror stop scope tokens := by
  have head := agrees_readHead stop stop' tokens
  unfold readMirror at h ⊢
  split at h
  · cases h
  · rename_i found
    rw [head _ (by rw [found]), found]
    simp only
    rw [readDefinition_of_mirror stop stop' _ scope _ h]

/-! ## Items -/

theorem readItem_of_clean (blocks : List Block) (t : Token)
    (clean : (readItem stop blocks t tokens).content.log.Clean) :
    readItem stop' blocks t tokens = readItem stop blocks t tokens := by
  obtain closes | hash | named | ends | other := item_cases t
  · rw [readItem_of_rbrace stop' blocks tokens closes,
      readItem_of_rbrace stop blocks tokens closes]
  · rw [readItem_of_hash stop blocks tokens hash] at clean ⊢
    obtain ⟨found, same⟩ :=
      (honest_readInclude stop t.location tokens).clean_iff.mp
        (clean_includeContent clean)
    rw [readItem_of_hash stop' blocks tokens hash,
      agrees_readInclude stop stop' tokens t.location found same]
  · have honest := honest_readNamespace stop tokens
    have agrees := agrees_readNamespace stop stop' tokens
    rw [readItem_of_namespace stop blocks tokens named] at clean ⊢
    rw [readItem_of_namespace stop' blocks tokens named]
    split at clean <;> rename_i found <;> rw [found] at honest agrees
    · rw [agrees _ rfl]
    · exact absurd (honest.clean_iff.mp clean) (by simp)
  · rw [readItem_of_semicolon stop' blocks tokens ends,
      readItem_of_semicolon stop blocks tokens ends]
  · rw [readItem_of_definition stop blocks tokens other] at clean ⊢
    obtain ⟨mirror, found⟩ :=
      (honest_readMirror stop (scopeOf blocks) (t :: tokens)).mp clean
    rw [readItem_of_definition stop' blocks tokens other,
      readMirror_of_mirror stop stop' _ _ found]

/-- What is read without errors has the same content whatever ends the
file. -/
theorem readItems_of_clean (blocks : List Block)
    (clean : (readItems stop blocks tokens).log.Clean) :
    readItems stop' blocks tokens = readItems stop blocks tokens := by
  induction blocks, tokens using items_induction stop with
  | nil blocks => rw [readItems, readItems]
  | item blocks t ts ih =>
    rw [readItems_cons, Content.log_append, Log.clean_append] at clean
    rw [readItems_cons, readItems_cons,
      readItem_of_clean stop stop' ts blocks t clean.1, ih clean.2]

/-- Tokens without errors have the same content in front of any others, which
are read as they are alone. -/
theorem readItems_append (clean : (readItems stop [] tokens).log.Clean)
    (rest : List Token) :
    readItems stop' [] (tokens ++ rest) =
      readItems stop [] tokens ++ readItems stop' [] rest := by
  have good : Grammar.Items tokens := by
    cases closing_of_readItems stop [] tokens clean with
    | last good => exact good
  obtain ⟨content, -, runs⟩ := passes_items stop' good []
  have alone := (runs []).readItems
  rw [List.append_nil, readItems_nil, Content.append_empty,
    readItems_of_clean stop stop' tokens [] clean]
    at alone
  rw [(runs rest).readItems, alone]

end

/-! ## Files -/

theorem beforeEnd_append_of_eofFree {tokens : List Token}
    (free : EofFree tokens) (rest : List Token) :
    beforeEnd (tokens ++ rest) = tokens ++ beforeEnd rest :=
  List.takeWhile_append_of_pos fun t h => by simpa using free t h

theorem endOf_append_of_eofFree (path : Text) {tokens : List Token}
    (free : EofFree tokens) (rest : List Token) :
    endOf path (tokens ++ rest) = endOf path rest := by
  have none_ends : tokens.find? (·.kind == .eof) = none :=
    List.find?_eq_none.mpr fun t h => by simpa using free t h
  rw [endOf, List.find?_append, none_ends, Option.none_or, endOf]

/-- Tokens that are read without errors, followed by any others: the includes,
the mirror types and the reports of the whole are those of the former followed
by those of the latter. -/
theorem readTokens_append (path : Text) {tokens : List Token}
    (free : EofFree tokens) (clean : ErrorFree path tokens)
    (rest : List Token) :
    readTokens path (tokens ++ rest) =
      { file :=
          { path
            includes := (readTokens path tokens).file.includes ++
              (readTokens path rest).file.includes
            mirrors := (readTokens path tokens).file.mirrors ++
              (readTokens path rest).file.mirrors }
        log :=
        (readTokens path tokens).log ++ (readTokens path rest).log } := by
  rw [ErrorFree, readTokens_of_eofFree path free] at clean
  have whole :=
    readItems_append (noEnd path) (endOf path rest) tokens clean
      (beforeEnd rest)
  rw [readTokens_of_eofFree path free, readTokens,
    beforeEnd_append_of_eofFree free, endOf_append_of_eofFree path free, whole]
  rfl

/-- An include line and a namespace block that come with a warning, and no
error. -/
def warnedBlock : List Token :=
  beforeEnd (Token.scan "f.mirror"
      "#include <a>\nnamespace n \x7b\n#include <b>\nstruct A \x7b int x; \x7d;\n\x7d")

/-- A closing brace too many, a definition without a body and a sound one. -/
def malformedTail : List Token :=
  beforeEnd
    (Token.scan "f.mirror" "\x7d struct B; struct C \x7b int y; \x7d; struct")

theorem readTokens_append_malformed :
    EofFree warnedBlock ∧ ErrorFree "f.mirror" warnedBlock ∧
    (readTokens "f.mirror" warnedBlock).log.length = 1 ∧
    ¬ErrorFree "f.mirror" malformedTail ∧
    (readTokens "f.mirror" (warnedBlock ++ malformedTail)).file.mirrors.map
      (·.name) = [Text.ofString "A", Text.ofString "C"] ∧
    (readTokens "f.mirror" (warnedBlock ++ malformedTail)).log =
      (readTokens "f.mirror" warnedBlock).log ++
        (readTokens "f.mirror" malformedTail).log := by
  have free : EofFree warnedBlock := by decide +kernel
  have clean : ErrorFree "f.mirror" warnedBlock := by decide +kernel
  have whole := readTokens_append "f.mirror" free clean malformedTail
  refine ⟨free, clean, by decide +kernel, by decide +kernel, ?_, ?_⟩
  · rw [whole]
    decide +kernel
  · rw [whole]

end Decl
end MirrorAdapter
