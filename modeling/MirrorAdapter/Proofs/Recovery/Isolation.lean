import MirrorAdapter.Proofs.Recovery.Locality
import MirrorAdapter.Proofs.Recovery.Origin

/-!
# What a malformed stretch does to its neighbours

Between two stretches without errors stands one that ends with a semicolon.
Its errors stay inside it, that is all mirror types around it are returned,
iff reading it always ends right behind it and outside all namespace blocks
(`Recovers`). For one direction a definition of a fresh name is put behind it,
on the line of its semicolon: the mirror type of that name can come from
nowhere but a reading that starts there.
-/
namespace MirrorAdapter
namespace Decl

open Grammar (Attributes isKeyword)

/-! ## Token lists as files -/

/-- None of the tokens ends a file. -/
def EofFree (tokens : List Token) : Prop := ∀ t ∈ tokens, t.kind ≠ .eof

/-- As a file the tokens are read without errors. -/
def ErrorFree (path : Text) (tokens : List Token) : Prop :=
  (readTokens path tokens).log.hasErrors = false

instance (tokens : List Token) : Decidable (EofFree tokens) :=
  inferInstanceAs (Decidable (∀ t ∈ tokens, t.kind ≠ .eof))

instance (path : Text) (tokens : List Token) :
    Decidable (ErrorFree path tokens) :=
  inferInstanceAs (Decidable ((readTokens path tokens).log.hasErrors = false))

/-- The mirror types of the tokens as a file. -/
def mirrorsOf (path : Text) (tokens : List Token) : List Mirror :=
  (readTokens path tokens).file.mirrors

/-- What ends a file without a token for its end. -/
def noEnd (path : Text) : Token := ⟨.eof, [], .start path⟩

theorem EofFree.append {a b : List Token} (ha : EofFree a) (hb : EofFree b) :
    EofFree (a ++ b) := by
  intro t ht
  rcases List.mem_append.mp ht with ht | ht
  · exact ha t ht
  · exact hb t ht

theorem readTokens_of_eofFree (path : Text) {tokens : List Token}
    (h : EofFree tokens) : readTokens path tokens =
      let content := readItems (noEnd path) [] tokens
      ⟨{ path, includes := content.includes, mirrors := content.mirrors },
        content.log⟩ := by
  have before : beforeEnd tokens = tokens := by
    have all : ∀ t ∈ tokens, (t.kind != .eof) = true :=
      fun t ht => by simpa using h t ht
    rw [beforeEnd, ← List.append_nil tokens, List.takeWhile_append_of_pos all]
    simp
  have ending : endOf path tokens = noEnd path := by
    have none_ends : tokens.find? (·.kind == .eof) = none := by
      rw [List.find?_eq_none]
      exact fun t ht => by simpa using h t ht
    rw [endOf, none_ends]
    rfl
  simp only [readTokens, before, ending]

/-- A file without errors is passed as a run, wherever it stands. -/
theorem passes_of_errorFree {path : Text} {tokens : List Token}
    (h : EofFree tokens) (clean : ErrorFree path tokens) :
    ∃ content : Content,
      content.log.Clean ∧ content.mirrors = mirrorsOf path tokens ∧
      ∀ rest, Run (noEnd path) [] (tokens ++ rest) content [] rest := by
  rw [ErrorFree, readTokens_of_eofFree path h] at clean
  have good : Grammar.Items tokens := by
    cases closing_of_readItems (noEnd path) [] tokens clean with
    | last good => exact good
  obtain ⟨content, clean', runs⟩ := passes_items (noEnd path) good []
  refine ⟨content, clean', ?_, runs⟩
  have whole := (runs []).readItems
  rw [List.append_nil] at whole
  simp [mirrorsOf, readTokens_of_eofFree path h, whole]

/-! ## Isolation -/

/-- Wherever the stretch stands between stretches without errors, all their
mirror types are returned. -/
def Isolates (path : Text) (tokens : List Token) : Prop :=
  ∀ before after, EofFree before → EofFree after →
    ErrorFree path before → ErrorFree path after →
    (mirrorsOf path before ++ mirrorsOf path after).Sublist
      (mirrorsOf path (before ++ tokens ++ after))

/-- Whatever follows, reading the stretch from outside all namespace blocks
ends right behind it, outside all namespace blocks. -/
def Recovers (path : Text) (tokens : List Token) : Prop :=
  ∃ content, ∀ after, Run (noEnd path) [] (tokens ++ after) content [] after

theorem Recovers.mirrorsOf {path : Text} {tokens : List Token}
    (h : Recovers path tokens) (free : EofFree tokens)
    {before after : List Token} (freeBefore : EofFree before)
    (freeAfter : EofFree after) (cleanBefore : ErrorFree path before) :
    mirrorsOf path (before ++ tokens ++ after) = mirrorsOf path before ++
        mirrorsOf path tokens ++ mirrorsOf path after := by
  obtain ⟨content, runs⟩ := h
  obtain ⟨first, -, mirrors, runs'⟩ :=
    passes_of_errorFree freeBefore cleanBefore
  have whole := ((runs' (tokens ++ after)).trans (runs after)).readItems
  have alone := (runs []).readItems
  rw [← List.append_assoc] at whole
  rw [List.append_nil] at alone
  rw [← mirrors]
  simp only [Decl.mirrorsOf,
    readTokens_of_eofFree path ((freeBefore.append free).append freeAfter),
    readTokens_of_eofFree path free, readTokens_of_eofFree path freeAfter,
    whole, alone]
  simp

/-! ## Probes -/

/-- An empty definition of the name, all of it in one place. -/
def probe (location : Location) (name : Text) : List Token :=
  [⟨.identifier, "struct", location⟩, ⟨.identifier, name, location⟩,
    ⟨.lbrace, "\x7b", location⟩, ⟨.rbrace, "\x7d", location⟩,
    ⟨.semicolon, ";", location⟩]

theorem eofFree_probe (location : Location) (name : Text) :
    EofFree (probe location name) := by
  simp [EofFree, probe]

theorem readHead_probe (stop : Token) (location : Location)
    (name : Text) (rest : List Token) :
    readHead stop (⟨.identifier, "struct", location⟩ ::
      ⟨.identifier, name, location⟩ :: rest) =
      ⟨some
          { name, location, isClass := false, templateParams := [],
            attributes := [] },
        rest, []⟩ := by
  have other : ¬("struct" : Text) = "template" := by decide
  have noAttributes (text : Text) (more : List Token) :
      readAttributes stop (⟨.identifier, text, location⟩ :: more) =
        .done [] (⟨.identifier, text, location⟩ :: more) :=
    readAttributes_of_closed stop
      (by cases more <;> simp [Grammar.opensAttributes])
  simp only [readHead, noAttributes, Parsed.done, Parsed.andThen,
    readTemplate, Token.isWord, readKeyword, expect]
  simp [other, noAttributes, Parsed.done]

theorem readMirror_probe (stop : Token) (location : Location) (name : Text) :
    readMirror stop [] (probe location name) =
      { mirror := some { name, location }, complete := true, rest := [],
        log := [] } := by
  have body :
      readBody stop
          [⟨.rbrace, "\x7d", location⟩, ⟨.semicolon, ";", location⟩] =
        { rest :=
            [⟨.rbrace, "\x7d", location⟩, ⟨.semicolon, ";", location⟩] } := by
    rw [readBody_cons, if_pos rfl]
  simp only [probe, readMirror, readHead_probe, readDefinition, body]
  simp [finish, expect, Parsed.done, Parsed.andThen]

theorem readItems_probe (stop : Token) (location : Location) (name : Text) :
    readItems stop [] (probe location name) =
      { mirrors := [{ name, location }] } := by
  have struct : isKeyword ⟨.identifier, "struct", location⟩ = true := by
    simp [isKeyword, Token.isWord]
  have start : LeftToDefinition ⟨.identifier, "struct", location⟩ :=
    leftToDefinition_of_starts (by simp [Grammar.startsMirror, struct])
  have read := readMirror_probe stop location name
  rw [probe] at read ⊢
  rw [readItems_cons, readItem_of_definition stop [] _ start, scopeOf,
    List.reverse_nil, List.flatMap_nil, read]
  simp [Definition.content, Definition.next]

/-- Some text is none of the given ones. -/
theorem exists_fresh (texts : List Text) : ∃ text : Text, text ∉ texts := by
  have long : ∃ n, ∀ text ∈ texts, text.length < n := by
    induction texts with
    | nil => exact ⟨0, by simp⟩
    | cons first texts ih =>
      obtain ⟨n, shorter⟩ := ih
      refine ⟨max n (first.length + 1), ?_⟩
      intro text h
      rcases List.mem_cons.mp h with rfl | h
      · omega
      · have := shorter text h
        omega
  obtain ⟨n, shorter⟩ := long
  refine ⟨List.replicate n 0, ?_⟩
  intro h
  have := shorter _ h
  rw [List.length_replicate] at this
  omega

/-- Two ways to split a list at an element that satisfies a condition nothing
else in it satisfies are one. -/
theorem eq_of_append_cons {α : Type} {p : α → Prop} {a c x z : List α}
    {b y : α} (h : a ++ b :: c = x ++ y :: z) (hy : p y)
    (ha : ∀ u ∈ a, ¬p u) (hc : ∀ u ∈ c, ¬p u) : a = x := by
  induction a generalizing x with
  | nil =>
    cases x with
    | nil => rfl
    | cons v x =>
      simp only [List.nil_append, List.cons_append, List.cons.injEq] at h
      exact absurd hy (hc y (by simp [h.2]))
  | cons u a ih =>
    cases x with
    | nil =>
      simp only [List.nil_append, List.cons_append, List.cons.injEq] at h
      exact absurd hy (h.1 ▸ ha u (by simp))
    | cons v x =>
      simp only [List.cons_append, List.cons.injEq] at h
      rw [h.1, ih h.2 fun w hw => ha w (.tail _ hw)]

/-- A head that ends right before the probe's name starts where the probe
starts. -/
theorem passed_of_head {line : UInt32} {tokens passed front : List Token}
    {keyword name : Token} (sealed : Sealed line tokens)
    (head : Grammar.Head front name) (word : keyword.kind = .identifier)
    (h : tokens ++ [keyword] = passed ++ front) : passed = tokens := by
  -- The keyword ends the head. If attributes follow it in the head, the last
  -- token is a bracket instead; if the head reaches back into the stretch,
  -- the stretch ends with a bracket and not with its semicolon.
  cases head with
  | @mk before attributes word' _ prelude _ good _ =>
    rcases List.eq_nil_or_concat attributes with rfl | ⟨others, last, rfl⟩
    · rw [← List.append_assoc] at h
      obtain ⟨h, -⟩ := List.append_inj' h rfl
      rcases List.eq_nil_or_concat before with rfl | ⟨others, last, rfl⟩
      · simpa using h.symm
      · obtain ⟨s, found, ends, -⟩ := sealed
        rw [List.concat_eq_append] at h prelude
        have same : last = s := by simpa [h] using found
        rcases prelude.last (List.getLast?_concat ..) with kind | kind <;>
            simp [same, ends] at kind
    · rw [List.concat_eq_append] at h good
      have same : keyword = last := by
        simpa [List.getLast?_cons] using congrArg List.getLast? h
      have kind := good.last List.getLast?_concat
      rw [← same, word] at kind
      contradiction

/-- A mirror type with the probe's name, outside all namespaces, was read from
where the probe starts. -/
theorem run_to_probe {stop : Token} {tokens : List Token}
    {line : UInt32} {location : Location} {name : Text}
    (sealed : Sealed line tokens) (fresh : ∀ t ∈ tokens, t.text ≠ name)
    (other : name ∉ [("struct" : Text), "\x7b", "\x7d", ";"])
    (h : (⟨name, location, [], false, [], [], []⟩ : Mirror) ∈
        (readItems stop [] (tokens ++ probe location name)).mirrors) :
    ∃ content, Run stop [] (tokens ++ probe location name) content []
        (probe location name) := by
  obtain ⟨content, blocks, left, run, found⟩ := exists_run_of_mem_mirrors h
  obtain ⟨-, front, nameToken, l, members, r, semicolon, -, whole, head, -,
        -, -, -, named, -, scope, -⟩ :=
    definition_of_readMirror stop found
  generalize (readMirror stop (scopeOf blocks) left).rest = rest at whole
  obtain ⟨passed, split⟩ := run.suffix
  simp only [List.mem_cons, List.not_mem_nil, or_false, not_or] at other
  -- No other token has the fresh name, so the definition found is the one put
  -- there.
  have parts :
      tokens ++ [⟨.identifier, "struct", location⟩] = passed ++ front := by
    have both :
        tokens ++ [⟨.identifier, "struct", location⟩] ++
          ⟨.identifier, name, location⟩ :: (probe location name).drop 2 =
          passed ++ front ++ nameToken ::
            (l :: members ++ r :: semicolon :: rest) := by
      have tail := congrArg (passed ++ ·) whole
      simp only [split] at tail
      simpa [probe] using tail
    refine eq_of_append_cons (p := fun t : Token => t.text = name) both
      named.symm (fun u hu => ?_) (fun u hu => ?_)
    · rcases List.mem_append.mp hu with hu | hu
      · exact fresh u hu
      · simp only [List.mem_singleton] at hu
        exact hu ▸ Ne.symm other.1
    · simp only [probe, List.drop, List.mem_cons, List.not_mem_nil, or_false]
        at hu
      rcases hu with rfl | rfl | rfl
      · exact Ne.symm other.2.1
      · exact Ne.symm other.2.2.1
      · exact Ne.symm other.2.2.2
  obtain rfl := passed_of_head sealed head rfl parts
  have here : left = probe location name := List.append_cancel_left split
  have outside : blocks = [] :=
    (run.named fun _ h => by simp at h).eq_nil scope.symm
  rw [here, outside] at run
  exact ⟨content, run⟩

theorem eofFree_nil : EofFree [] := fun _ h => by simp at h

theorem errorFree_nil (path : Text) : ErrorFree path [] := by
  simp [ErrorFree, readTokens_of_eofFree path eofFree_nil, Log.hasErrors]

/-- A single test tells whether reading recovers: a definition of a fresh name
right behind the semicolon. -/
theorem recovers_iff_probe (path : Text)
    {tokens : List Token} {semicolon : Token} {name : Text}
    (free : EofFree tokens) (last : tokens.getLast? = some semicolon)
    (ends : semicolon.kind = .semicolon)
    (fresh : name ∉
        [("struct" : Text), "\x7b", "\x7d", ";"] ++ tokens.map Token.text) :
    Recovers path tokens ↔
      (⟨name, semicolon.location, [], false, [], [], []⟩ : Mirror) ∈
        mirrorsOf path (tokens ++ probe semicolon.location name) := by
  have sealed : Sealed semicolon.line tokens := ⟨semicolon, last, ends, rfl⟩
  have freeProbe := eofFree_probe semicolon.location name
  have read := readItems_probe (noEnd path) semicolon.location name
  simp only [List.mem_append, not_or] at fresh
  constructor
  · intro recovers
    have whole :=
      recovers.mirrorsOf free eofFree_nil freeProbe (errorFree_nil path)
    rw [List.nil_append] at whole
    rw [whole]
    simp [mirrorsOf, readTokens_of_eofFree path freeProbe, read]
  · intro returned
    rw [mirrorsOf, readTokens_of_eofFree path (free.append freeProbe)]
      at returned
    have other : ∀ t ∈ tokens, t.text ≠ name :=
      fun t ht same => fresh.2 (List.mem_map.mpr ⟨t, ht, same⟩)
    obtain ⟨content, run⟩ := run_to_probe sealed other fresh.1 returned
    have resumes : Resumes semicolon.line (probe semicolon.location name) :=
      ⟨_, _, rfl, rfl, rfl⟩
    exact ⟨content, run.at_seam rfl sealed.ended resumes⟩

/-- Errors stay inside a stretch that ends with a semicolon iff reading
recovers at its end, and whether it does can be tested with one definition of
any fresh name. -/
theorem isolates_iff_recovers (path : Text) {tokens : List Token}
    {semicolon : Token} (free : EofFree tokens)
    (last : tokens.getLast? = some semicolon)
    (ends : semicolon.kind = .semicolon) :
    (Isolates path tokens ↔ Recovers path tokens) ∧ ∀ name,
      name ∉ [("struct" : Text), "\x7b", "\x7d", ";"] ++ tokens.map Token.text →
      (Isolates path tokens ↔
        (⟨name, semicolon.location, [], false, [], [], []⟩ : Mirror) ∈
          mirrorsOf path (tokens ++ probe semicolon.location name)) := by
  have iff : Isolates path tokens ↔ Recovers path tokens := by
    constructor
    · intro isolates
      obtain ⟨name, fresh⟩ :=
        exists_fresh
          ([("struct" : Text), "\x7b", "\x7d", ";"] ++ tokens.map Token.text)
      have freeProbe := eofFree_probe semicolon.location name
      have read := readItems_probe (noEnd path) semicolon.location name
      have cleanProbe : ErrorFree path (probe semicolon.location name) := by
        simp [ErrorFree, readTokens_of_eofFree path freeProbe, read,
          Log.hasErrors]
      -- Nothing in front and one definition behind are enough.
      have returned :=
        isolates [] _ eofFree_nil freeProbe (errorFree_nil path) cleanProbe
      rw [List.nil_append] at returned
      refine (recovers_iff_probe path free last ends fresh).mpr
        (returned.subset ?_)
      simp [mirrorsOf, readTokens_of_eofFree path freeProbe, read]
    · intro recovers before after freeBefore freeAfter cleanBefore cleanAfter
      rw [recovers.mirrorsOf free freeBefore freeAfter cleanBefore,
        List.append_assoc]
      exact (List.sublist_append_right _ _).append_left _
  exact ⟨iff,
    fun name fresh => iff.trans (recovers_iff_probe path free last ends fresh)⟩

/-- A member function without a body, which is no data field. -/
def memberFunction : List Token :=
  beforeEnd (Token.scan "f.mirror" "struct M \x7b int f(int a); int b; \x7d;")

/-- Reading recovers behind a member function: it is malformed, and its
neighbours are returned. -/
theorem memberFunction_isolated :
    EofFree memberFunction ∧ ¬ErrorFree "f.mirror" memberFunction ∧
    Isolates "f.mirror" memberFunction := by
  have free : EofFree memberFunction := by decide +kernel
  have last :
      memberFunction.getLast? =
        some ⟨.semicolon, ";", ⟨"f.mirror", 1, 34⟩⟩ := by
    decide +kernel
  have fresh : ("fresh" : Text) ∉ [("struct" : Text), "\x7b", "\x7d", ";"] ++
    memberFunction.map Token.text := by
    decide +kernel
  have tested :=
    (isolates_iff_recovers "f.mirror" free last rfl).2 "fresh" fresh
  exact ⟨free, by decide +kernel, tested.mpr (by decide +kernel)⟩

/-- A definition whose brackets are properly nested, so that the only
semicolon outside all of them is its last token. -/
structure BracketedDefinition (tokens : List Token) : Prop where
  parts : ∃ keyword name l body r semicolon,
      tokens = keyword :: name :: l :: body ++ [r, semicolon] ∧
      isKeyword keyword ∧ name.kind = .identifier ∧
      l.kind = .lbrace ∧ Grammar.Nested Grammar.allShapes body ∧
      r.kind = .rbrace ∧ semicolon.kind = .semicolon

/-- A semicolon between the parentheses of a member. -/
def semicolonInside : List Token :=
  beforeEnd (Token.scan "f.mirror" "struct M \x7b int f(;); \x7d;")

/-- A definition on the next line. -/
def sibling : List Token :=
  beforeEnd (Token.scan "f.mirror" "\nstruct B \x7b int x; \x7d;")

/-- Properly nested brackets do not keep errors inside: behind the semicolon
between the parentheses reading goes on inside them, and the definition on the
next line is lost. -/
theorem semicolonInside_not_isolated :
    BracketedDefinition semicolonInside ∧ EofFree semicolonInside ∧
    EofFree sibling ∧ ErrorFree "f.mirror" sibling ∧
    semicolonInside ++ sibling = beforeEnd (Token.scan "f.mirror"
          "struct M \x7b int f(;); \x7d;\nstruct B \x7b int x; \x7d;") ∧
    (mirrorsOf "f.mirror" sibling).length = 1 ∧
    mirrorsOf "f.mirror" (semicolonInside ++ sibling) = [] ∧
    ¬Isolates "f.mirror" semicolonInside := by
  have lost : mirrorsOf "f.mirror" (semicolonInside ++ sibling) = [] := by
    decide +kernel
  have found : (mirrorsOf "f.mirror" sibling).length = 1 := by decide +kernel
  have free : EofFree sibling := by decide +kernel
  have clean : ErrorFree "f.mirror" sibling := by decide +kernel
  refine ⟨⟨?_⟩, by decide +kernel, free, clean, by decide +kernel, found,
    lost, ?_⟩
  · let place (column : UInt32) : Location := ⟨"f.mirror", 1, column⟩
    let inside : List Token :=
      [⟨.identifier, "int", place 12⟩, ⟨.identifier, "f", place 16⟩]
    let l : Token := ⟨.lparen, "(", place 17⟩
    let mark : Token := ⟨.semicolon, ";", place 18⟩
    let r : Token := ⟨.rparen, ")", place 19⟩
    let last : Token := ⟨.semicolon, ";", place 20⟩
    have nested :
        Grammar.Nested Grammar.allShapes
          (inside ++ (l :: [mark] ++ r :: [last])) :=
      .token (by decide) (.token (by decide) (.group (by decide)
            (.token (by decide) .nil) (.token (by decide) .nil)))
    exact ⟨⟨.identifier, "struct", place 1⟩, ⟨.identifier, "M", place 8⟩,
      ⟨.lbrace, "\x7b", place 10⟩, _, ⟨.rbrace, "\x7d", place 22⟩,
      ⟨.semicolon, ";", place 23⟩, by decide +kernel, by decide, rfl, rfl,
      nested, rfl, rfl⟩
  · intro isolates
    have kept :=
      (isolates [] sibling eofFree_nil free (errorFree_nil _) clean).length_le
    rw [List.nil_append, lost, List.length_append, found] at kept
    simp at kept

end Decl
end MirrorAdapter
