import MirrorAdapter.Proofs.Grammar.Definition
import MirrorAdapter.Proofs.Items

/-!
# Files and their grammar

A file is read without errors iff the grammar derives it. Both directions go
item by item: reading keeps that what is left closes the open blocks
(`Grammar.Closing`), and every item is a run that ends behind it and leaves
the open blocks as they were.
-/
namespace MirrorAdapter
namespace Decl

open Grammar
  (PathTail Target Include Opening Closing Items isKeyword startsMirror)

section
variable (stop : Token)

/-! ## Include lines -/

/-- What may stand between the angle brackets of a target on the line. -/
def inTarget (line : UInt32) (u : Token) : Bool :=
  u.line == line && u.kind != .greater

theorem inTarget_iff (line : UInt32) (u : Token) :
    inTarget line u = true ↔ u.line = line ∧ u.kind ≠ .greater := by
  simp [inTarget]

/-- A target in angle brackets goes on to the first token that may not stand
between them. -/
theorem readTarget_angle (hash : Location) {line : UInt32} {t : Token}
    (opens : t.kind = .less) (same : t.line = line) (ts : List Token) :
    readTarget hash line (t :: ts) =
      match ts.dropWhile (inTarget line) with
      | [] => .giveUp [] (Fault.unterminatedTarget.report hash)
      | closing :: rest =>
        if closing.line = line then
          .done
            ⟨t.text ++ (ts.takeWhile (inTarget line)).flatMap Token.text ++
              closing.text, hash⟩ rest
        else .giveUp (closing :: rest)
          (Fault.unterminatedTarget.report hash) := by
  rw [readTarget, if_neg (by simp [opens]), if_pos ⟨opens, same⟩]
  rfl

theorem honest_readTarget (hash : Location) (line : UInt32)
    (tokens : List Token) : (readTarget hash line tokens).Honest := by
  have failed (fault : Fault)
      (h : fault.severity = .error) (rest : List Token) :
      (Parsed.giveUp rest (fault.report hash) : Parsed Include).Honest :=
    Parsed.honest_giveUp rest (fault.isError_report h hash)
  unfold readTarget
  split
  · exact failed _ rfl _
  · split
    · exact Parsed.honest_done _ _
    · split
      · dsimp only
        split
        · exact failed _ rfl _
        · split
          · exact Parsed.honest_done _ _
          · exact failed _ rfl _
      · exact failed _ rfl _

theorem consumes_readTarget (hash : Location)
    (line : UInt32) (tokens : List Token) :
    (readTarget hash line tokens).Consumes tokens
      fun _ eaten => Target line eaten := by
  cases tokens with
  | nil => exact Parsed.consumes_giveUp _ _ _ _
  | cons t ts =>
    by_cases string : t.kind = .string ∧ t.line = line
    · rw [readTarget, if_pos string]
      exact Parsed.consumes_done [t] (Target.string string.1 string.2)
    · by_cases opens : t.kind = .less ∧ t.line = line
      · have inside :=
          List.all_eq_true.mp
            (List.all_takeWhile (p := inTarget line) (l := ts))
        have whole :=
          List.takeWhile_append_dropWhile (p := inTarget line) (l := ts)
        have stops := List.head?_dropWhile_not (inTarget line) ts
        rw [readTarget_angle hash opens.1 opens.2]
        cases found : ts.dropWhile (inTarget line) with
        | nil => exact Parsed.consumes_giveUp _ _ _ _
        | cons r rest =>
          rw [found] at whole stops
          by_cases same : r.line = line
          · have closes : r.kind = .greater := by
              simpa [inTarget, same] using stops
            have target :
                Target line (t :: ts.takeWhile (inTarget line) ++ [r]) :=
              .angle opens.1 opens.2
                (fun u hu => (inTarget_iff line u).mp (inside u hu)) closes same
            simp only [same, if_true]
            intro _ _
            refine ⟨_, ?_, target⟩
            simp [Parsed.done, whole]
          · simp only [same, if_false]
            exact Parsed.consumes_giveUp _ _ _ _
      · rw [readTarget, if_neg string, if_neg opens]
        exact Parsed.consumes_giveUp _ _ _ _

/-- A target in angle brackets is spelled by the texts of its tokens. -/
theorem readTarget_closed (hash : Location) {line : UInt32} {l r : Token}
    {inside : List Token} (opens : l.kind = .less) (here : l.line = line)
    (good : ∀ t ∈ inside, t.line = line ∧ t.kind ≠ .greater)
    (closes : r.kind = .greater) (same : r.line = line) (rest : List Token) :
    readTarget hash line (l :: (inside ++ r :: rest)) =
      .done ⟨l.text ++ inside.flatMap Token.text ++ r.text, hash⟩ rest := by
  have all : ∀ u ∈ inside, inTarget line u = true :=
    fun u hu => (inTarget_iff line u).mpr (good u hu)
  have stops : ¬inTarget line r = true := by simp [inTarget, closes]
  have dropped :
      (inside ++ r :: rest).dropWhile (inTarget line) = r :: rest := by
    rw [List.dropWhile_append_of_pos all, List.dropWhile_cons_of_neg stops]
  have taken : (inside ++ r :: rest).takeWhile (inTarget line) = inside := by
    rw [List.takeWhile_append_of_pos all, List.takeWhile_cons_of_neg stops,
      List.append_nil]
  rw [readTarget_angle hash opens here, dropped, taken]
  simp [same]

theorem reads_readTarget (hash : Location) {line : UInt32}
    {target : List Token} (h : Target line target) :
    Reads (readTarget hash line) target fun _ => True := by
  cases h with
  | @string t kind same =>
    exact ⟨_, [], Log.clean_nil,
      fun rest _ => by simp [readTarget, kind, same, Parsed.done]; rfl⟩
  | @angle l r inside opens here good closes same =>
    refine ⟨⟨l.text ++ inside.flatMap Token.text ++ r.text, hash⟩, [],
      Log.clean_nil, fun rest _ => ?_⟩
    rw [List.append_assoc, List.cons_append, List.singleton_append,
      readTarget_closed hash opens here good closes same]
    rfl

theorem honest_readInclude (hash : Location) (tokens : List Token) :
    (readInclude stop hash tokens).Honest := by
  unfold readInclude
  split
  · exact honest_blame stop rfl _
  · split
    · exact honest_readTarget _ _ _
    · exact Parsed.honest_giveUp _ (Fault.isError_report rfl _)

theorem consumes_readInclude (hash : Token)
    (mark : hash.kind = .hash) (tokens : List Token) :
    (readInclude stop hash.location tokens).Consumes tokens
      fun _ eaten => Grammar.Include (hash :: eaten) := by
  unfold readInclude
  split
  · exact Parsed.consumes_giveUp _ _ _ _
  · rename_i word ts
    split
    · rename_i named
      exact (consumes_readTarget _ _ ts).after List.singleton_append
        fun _ _ target => .mk mark named target
    · exact Parsed.consumes_giveUp _ _ _ _

theorem reads_readInclude (hash : Location) {word : Token} {target : List Token}
    (named : word.isWord "include") (h : Target word.line target) :
    Reads (readInclude stop hash) (word :: target) fun _ => True := by
  obtain ⟨found, log, clean, reads⟩ := reads_readTarget hash h
  exact ⟨found, log, clean,
    fun rest all => by simp [readInclude, named, reads rest all]⟩

/-! ## Openings of namespace blocks -/

theorem honest_readNamespace (tokens : List Token) :
    (readNamespace stop tokens).Honest := by
  apply (honest_expect stop _ rfl _).andThen
  intro _ rest
  split
  · exact honest_blame stop rfl _
  · exact (honest_expect stop _ rfl _).andThen fun _ _ => Parsed.honest_done _ _

theorem consumes_readNamespace (word : Token)
    (named : word.isWord "namespace") (tokens : List Token) :
    (readNamespace stop tokens).Consumes tokens fun components eaten =>
      components ≠ [] ∧ Opening (word :: eaten) := by
  apply (consumes_expect stop .identifier _ tokens).andThen
  intro name _ rest _ first
  obtain ⟨rfl, kind⟩ := first
  split
  · exact Parsed.consumes_giveUp _ _ _ _
  · rename_i components rest' found
    obtain ⟨path, rfl, tail⟩ := pathTail_sound found
    refine Parsed.Consumes.after ?_ (rfl : path ++ rest' = path ++ rest')
      fun _ _ => id
    apply (consumes_expect stop .lbrace _ rest').andThen
    intro l _ rest _ opens
    obtain ⟨rfl, opens⟩ := opens
    exact Parsed.consumes_nothing
      ⟨by simp, by simpa using Opening.mk named kind tail opens⟩

theorem reads_readNamespace {name l : Token}
    {path : List Token} (kind : name.kind = .identifier)
    (tail : PathTail path) (opens : l.kind = .lbrace) :
    Reads (readNamespace stop) (name :: path ++ [l]) fun _ => True := by
  obtain ⟨components, reads⟩ := pathTail_complete tail
  refine ⟨name.text :: components, [], Log.clean_nil, ?_⟩
  intro rest _
  have found := reads (l :: rest) (by simp [Token.startsWith, opens])
  rw [List.append_assoc, List.cons_append, List.singleton_append]
  simp [readNamespace, expect, kind, found, opens, Parsed.done, Parsed.andThen]

/-! ## Nothing malformed is accepted -/

theorem clean_includeContent {blocks : List Block} {line : Parsed Include}
    (clean : (includeContent blocks line).log.Clean) : line.log.Clean := by
  unfold includeContent at clean
  split at clean
  · exact clean
  · exact (Log.clean_append.mp clean).1

/-- An item without errors takes what the grammar derives, and keeps what
closes the open blocks. -/
theorem closing_of_readItem {blocks : List Block} {t : Token}
    {ts : List Token} (clean : (readItem stop blocks t ts).content.log.Clean)
    (h : Closing Items .rbrace (readItem stop blocks t ts).blocks.length
        (readItem stop blocks t ts).rest) :
    Closing Items .rbrace blocks.length (t :: ts) := by
  have put {item : List Token} (good : Grammar.Item item) (rest : List Token)
      (more : Items rest) : Items (item ++ rest) := .cons good more
  obtain closes | hash | named | ends | other := item_cases t
  · rw [readItem_of_rbrace stop blocks ts closes] at clean h
    cases blocks with
    | nil => exact absurd clean (not_clean_report rfl _)
    | cons block outer => exact Closing.close .nil closes h
  · rw [readItem_of_hash stop blocks ts hash] at clean h
    obtain ⟨found, same⟩ :=
      (honest_readInclude stop t.location ts).clean_iff.mp
        (clean_includeContent clean)
    obtain ⟨eaten, whole, good⟩ :=
      consumes_readInclude stop t hash ts found same
    rw [whole, ← List.cons_append]
    exact h.prepend _ (put (.include good))
  · rw [readItem_of_namespace stop blocks ts named] at clean h
    have honest := honest_readNamespace stop ts
    have consumes := consumes_readNamespace stop t named ts
    split at clean <;> rename_i found <;> rw [found] at honest consumes h
    · obtain ⟨eaten, whole, -, good⟩ := consumes _ rfl
      simp only [List.length_cons] at h
      -- The brace that closes this block is the first one that closes any of
      -- those left open.
      obtain ⟨inside, r, rest, left, items, closes, tail⟩ := h.succ
      have block := tail.prepend _ (put (.block good items closes))
      rw [whole, left]
      simpa using block
    · exact absurd (honest.clean_iff.mp clean) (by simp)
  · rw [readItem_of_semicolon stop blocks ts ends] at h
    exact h.prepend [t] (put (.semicolon ends))
  · rw [readItem_of_definition stop blocks ts other] at clean h
    obtain ⟨mirror, found⟩ :=
      (honest_readMirror stop (scopeOf blocks) (t :: ts)).mp clean
    obtain ⟨complete, front, name, l, members, r, semicolon,
          fields, whole, head, opens, inside, closes, ends, -⟩ :=
      definition_of_readMirror stop found
    have good :
        Grammar.Mirror (front ++ name :: l :: members ++ [r] ++ [semicolon]) :=
      .mk (.mk head opens inside.members closes) ends
    simp only [Definition.next, complete, if_true] at h
    have all := h.prepend _ (put (.mirror good))
    rw [whole]
    simpa using all

/-- What is read without errors inside open blocks closes them. -/
theorem closing_of_readItems (blocks : List Block) (tokens : List Token)
    (clean : (readItems stop blocks tokens).log.Clean) :
    Closing Items .rbrace blocks.length tokens := by
  induction blocks, tokens using items_induction stop with
  | nil blocks =>
    cases blocks with
    | nil => exact .last .nil
    | cons block outer =>
      rw [readItems.eq_def] at clean
      simp [Content.ofLog, Log.Clean, Log.hasErrors,
        Fault.report, Fault.severity, Diagnostic.isError]
        at clean
  | item blocks t ts ih =>
    rw [readItems_cons, Content.log_append, Log.clean_append] at clean
    exact closing_of_readItem stop clean.1 (ih clean.2)

/-! ## Nothing well-formed is rejected -/

theorem leftToDefinition_of_starts {t : Token} (h : startsMirror t) :
    LeftToDefinition t := by
  simp only [startsMirror, Bool.or_eq_true, beq_iff_eq] at h
  rcases h with (bracket | template) | keyword
  · constructor <;> simp [bracket, Token.isWord]
  · have kind := Token.kind_of_isWord template
    have other : t.isWord "namespace" = false :=
      Token.isWord_of_ne template (by decide)
    constructor <;> simp [kind, other]
  · have kind := Grammar.isKeyword_kind keyword
    have other : t.isWord "namespace" = false :=
      Grammar.isKeyword_other keyword (by decide) (by decide)
    constructor <;> simp [kind, other]

/-- Reading takes the tokens as a run that leaves the open blocks as they are,
whatever follows. -/
def Passes (tokens : List Token) : Prop :=
  ∀ blocks, ∃ content : Content, content.log.Clean ∧
    ∀ rest, Run stop blocks (tokens ++ rest) content blocks rest

theorem passes_nil : Passes stop [] := by
  intro blocks
  exact ⟨{}, Log.clean_nil, fun rest => .refl blocks rest⟩

theorem Passes.append {a b : List Token} (ha : Passes stop a)
    (hb : Passes stop b) : Passes stop (a ++ b) := by
  intro blocks
  obtain ⟨content, clean, runs⟩ := ha blocks
  obtain ⟨content', clean', runs'⟩ := hb blocks
  refine ⟨content ++ content', by simp [clean, clean'], ?_⟩
  intro rest
  rw [List.append_assoc]
  exact (runs (b ++ rest)).trans (runs' rest)

theorem passes_semicolon {t : Token} (ends : t.kind = .semicolon) :
    Passes stop [t] := by
  intro blocks
  exact ⟨{}, Log.clean_nil,
    fun rest => .single (readItem_of_semicolon stop blocks rest ends)⟩

theorem passes_include {tokens : List Token} (h : Grammar.Include tokens) :
    Passes stop tokens := by
  intro blocks
  cases h with
  | @mk hash word inside mark named target =>
    obtain ⟨found, log, clean, reads⟩ :=
      reads_readInclude stop hash.location named target
    refine ⟨includeContent blocks ⟨some found, [], log⟩, ?_, ?_⟩
    · unfold includeContent
      cases blocks <;>
          simp [clean, Log.clean_singleton, Fault.report, Fault.severity]
    · intro rest
      have step := readItem_of_hash stop blocks (word :: inside ++ rest) mark
      rw [reads rest trivial] at step
      exact .single step

/-- A definition that the grammar derives is a run that contributes one mirror
type. -/
theorem run_of_mirror {tokens : List Token}
    (h : Grammar.Mirror tokens) (blocks : List Block) :
    ∃ mirror log, Log.Clean log ∧ ∀ rest, Run stop blocks (tokens ++ rest)
          { mirrors := [mirror], log } blocks rest := by
  cases h with
  | @mk definition semicolon good ends =>
    obtain ⟨mirror, log, clean, reads⟩ :=
      readMirror_of_unterminated stop good (scopeOf blocks)
    obtain ⟨t, ts, rfl, starts⟩ := good.starts
    refine ⟨mirror, log, clean, ?_⟩
    intro rest
    have step :=
      readItem_of_definition stop blocks (ts ++ [semicolon] ++ rest)
        (leftToDefinition_of_starts starts)
    have read := reads (semicolon :: rest)
    rw [expect_of_kind stop _ ends] at read
    simp only [List.cons_append, List.append_assoc, List.nil_append]
      at step read ⊢
    rw [read] at step
    simpa [Definition.content, Definition.next] using Run.single step

theorem passes_mirror {tokens : List Token} (h : Grammar.Mirror tokens) :
    Passes stop tokens := by
  intro blocks
  obtain ⟨mirror, log, clean, runs⟩ := run_of_mirror stop h blocks
  exact ⟨{ mirrors := [mirror], log }, clean, runs⟩

theorem passes_block {opening inside : List Token} {r : Token}
    (h : Opening opening) (hinside : Passes stop inside)
    (closes : r.kind = .rbrace) : Passes stop (opening ++ inside ++ [r]) := by
  intro blocks
  cases h with
  | @mk word name l path named kind tail opens =>
    obtain ⟨components, log, clean, reads⟩ :=
      reads_readNamespace stop kind tail opens
    obtain ⟨content, clean', runs⟩ :=
      hinside (⟨word.location, components⟩ :: blocks)
    refine ⟨.ofLog log ++ content, by simp [Content.ofLog, clean, clean'], ?_⟩
    intro rest
    have start :=
      readItem_of_namespace stop blocks
        (name :: path ++ [l] ++ (inside ++ r :: rest)) named
    rw [reads (inside ++ r :: rest) trivial] at start
    have last :=
      readItem_of_rbrace stop (⟨word.location, components⟩ :: blocks)
        rest closes
    -- One step opens the block, the items run inside it, and one step closes
    -- it.
    have whole :=
      (Run.single start).trans ((runs (r :: rest)).trans (Run.single last))
    simpa using whole

mutual

theorem passes_item {tokens : List Token} (h : Grammar.Item tokens) :
    Passes stop tokens :=
  match h with
  | .semicolon ends => passes_semicolon stop ends
  | .include good => passes_include stop good
  | .mirror good => passes_mirror stop good
  | .block opens inside closes =>
    passes_block stop opens (passes_items inside) closes

theorem passes_items {tokens : List Token} (h : Items tokens) :
    Passes stop tokens :=
  match h with
  | .nil => passes_nil stop
  | .cons first rest => (passes_item first).append stop (passes_items rest)

end

/-- A token list is read without errors iff the grammar derives what stands
before its end. -/
theorem hasErrors_eq_false_iff_items (path : Text) (tokens : List Token) :
    (readTokens path tokens).log.hasErrors = false ↔
      Items (beforeEnd tokens) := by
  constructor
  · intro clean
    cases closing_of_readItems (endOf path tokens) []
      (beforeEnd tokens) clean with
    | last good => exact good
  · intro good
    obtain ⟨content, clean, runs⟩ := passes_items (endOf path tokens) good []
    have all := (runs []).readItems
    rw [List.append_nil] at all
    have : (readTokens path tokens).log.Clean := by
      simp only [readTokens, all]
      rw [readItems.eq_def]
      simpa [Content.ofLog] using clean
    exact this

end
end Decl
end MirrorAdapter
