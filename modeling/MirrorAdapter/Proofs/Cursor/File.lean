import MirrorAdapter.Proofs.Cursor.Definitions
import MirrorAdapter.Proofs.Cursor.Lines
import MirrorAdapter.Proofs.Recovery.Origin

/-!
# Files by position

Readers of lists keep the open namespace blocks on a stack and read a file in
one go. By position every block is read by a call of its own, which stops at
the block's end: what such a call finds is what the readers of lists find up
to there.
-/
namespace MirrorAdapter
namespace Decl

namespace Content

theorem append_includes (content : Content) (log : Log) (found : List Include) :
    content ++ ofLog log ++ { includes := found } =
      content ++ { includes := found, log } := by
  show Content.mk _ _ _ = Content.mk _ _ _
  simp [ofLog]

theorem append_mirrors (content : Content) (log : Log) (found : List Mirror) :
    content ++ ofLog log ++ { mirrors := found } =
      content ++ { mirrors := found, log } := by
  show Content.mk _ _ _ = Content.mk _ _ _
  simp [ofLog]

end Content

namespace Cursor

variable {tokens rest : List Token} {t : Token} {ts : List Token}

/-! ## Items that open no block -/

theorem run_includeItem (h : Stands tokens (t :: ts))
    {blocks : List Block} (named : Named blocks) (content : Content) :
    (includeItem tokens (scopeOf blocks)).run
      (before tokens (t :: ts) content) =
      some ((), before tokens (readInclude (endMark tokens) t.location ts).rest
          (content ++ includeContent blocks
            (readInclude (endMark tokens) t.location ts))) := by
  have reads := (follows_includeLine tokens t ts).run h content
  cases found : (readInclude (endMark tokens) t.location ts).value with
  | none => simp [includeItem, reads, found, includeContent]
  | some line =>
    cases blocks with
    | nil =>
      simp [includeItem, reads, found, includeContent, scopeOf,
        run_contribute, Content.append_includes]
    | cons block outer =>
      have inside : scopeOf (block :: outer) ≠ [] :=
        fun empty => by simpa using named.eq_nil empty
      simp [includeItem, reads, found, includeContent, inside,
        run_contribute, Content.append_includes]

theorem run_mirrorItem (h : Stands tokens (t :: ts))
    (start : LeftToDefinition t) (blocks : List Block) (content : Content) :
    (mirrorItem tokens (scopeOf blocks)).run (before tokens (t :: ts) content) =
      some ((), before tokens
          (readMirror (endMark tokens) (scopeOf blocks) (t :: ts)).next
          (content ++ (readMirror (endMark tokens) (scopeOf blocks)
              (t :: ts)).content)) := by
  have reads := finds_mirror h (scopeOf blocks) content
  have onward :=
    h.of_suffix (readMirror_suffix (endMark tokens) (scopeOf blocks) (t :: ts))
  have there := onward.of_suffix (Definition.next_suffix _)
  have moved :=
    suffix_of_shorter h there
      (readMirror_next_lt (endMark tokens) (scopeOf blocks) start.notClosing ts)
  cases found :
    (readMirror (endMark tokens) (scopeOf blocks) (t :: ts)).mirror with
  | some m =>
    have complete := complete_of_mirror found
    simp only [Definition.next, complete, if_true] at moved
    simp [mirrorItem, reads, found, complete, run_contribute,
      run_unstick h _ moved, Definition.next, Definition.content,
      Content.append_mirrors]
  | none =>
    cases complete :
      (readMirror (endMark tokens) (scopeOf blocks) (t :: ts)).complete with
    | true =>
      simp only [Definition.next, complete, if_true] at moved
      simp [mirrorItem, reads, found, complete, run_unstick h _ moved,
        Definition.next, Definition.content, Content.ofLog]
    | false =>
      simp only [Definition.next, complete, Bool.false_eq_true, if_false]
        at moved
      simp [mirrorItem, reads, found, complete, run_skipRest onward,
        run_unstick h _ moved, Definition.next, Definition.content,
        Content.ofLog]

/-! ## Namespace blocks -/

/-- Where the name of a namespace is malformed, what follows it is skipped
like a statement. -/
theorem run_namespaceBlock_of_none (h : Stands tokens (t :: ts))
    {between : List Token} {log : Log}
    (found : readNamespace (endMark tokens) ts = ⟨none, between, log⟩)
    (inside : List Text → Reader Unit) (scope : List Text) (content : Content) :
    (namespaceBlock tokens inside scope).run (before tokens (t :: ts) content) =
      some (false, before tokens between (content ++ .ofLog log)) := by
  obtain ⟨-, reads⟩ := (follows_namespaceHead tokens t ts).of_eq found h
  simp [namespaceBlock, h, reads]

/-- An item that leaves the open blocks as they are. -/
theorem run_item_of_stays {blocks : List Block} (named : Named blocks)
    (h : Stands tokens (t :: ts)) (other : t.kind ≠ .rbrace)
    (stays : (readItem (endMark tokens) blocks t ts).blocks = blocks)
    (inside : List Text → Reader Unit) (content : Content) :
    (item tokens inside (scopeOf blocks)).run
      (before tokens (t :: ts) content) =
      some ((), before tokens (readItem (endMark tokens) blocks t ts).rest
          (content ++ (readItem (endMark tokens) blocks t ts).content)) := by
  obtain closes | hash | word | ends | start := item_cases t
  · exact absurd closes other
  · simp [item, h, hash, run_includeItem h named, readItem_of_hash _ _ _ hash]
  · have kind := Token.kind_of_isWord word
    rw [readItem_of_namespace _ _ _ word] at stays ⊢
    rcases found :
        readNamespace (endMark tokens) ts with ⟨_ | components, between, log⟩
    · obtain ⟨there, -⟩ := (follows_namespaceHead tokens t ts).of_eq found h
      simp [item, h, kind, word, run_namespaceBlock_of_none h found,
        run_skipRest there]
    · simp [found] at stays
  · simp [item, h, ends, Token.isWord, readItem_of_semicolon _ _ _ ends]
  · simp [item, h, start.notHash, start.notNamespace, start.notSemicolon,
      run_mirrorItem h start, readItem_of_definition _ _ _ start]

/-- The reader gets from the one place to the other, and finds what is read of
a list on the way, inside the blocks. -/
structure Leads (tokens : List Token) (blocks : List Block)
    (reader : Reader Unit) (rest rest' : List Token) : Prop where
  suffix : rest' <:+ rest
  reads : ∃ added,
      readItems (endMark tokens) blocks rest =
        added ++ readItems (endMark tokens) blocks rest' ∧
      ∀ content, reader.run (before tokens rest content) =
          some ((), before tokens rest' (content ++ added))

theorem Leads.trans {blocks : List Block} {first second : Reader Unit}
    {rest rest' rest'' : List Token} (h : Leads tokens blocks first rest rest')
    (h' : Leads tokens blocks second rest' rest'') :
    Leads tokens blocks (do first; second) rest rest'' := by
  obtain ⟨added, found, run⟩ := h.reads
  obtain ⟨more, found', run'⟩ := h'.reads
  refine ⟨h'.suffix.trans h.suffix, added ++ more, ?_, fun content => ?_⟩
  · rw [found, found', Content.append_assoc]
  · simp [run, run', Content.append_assoc]

/-- Where nothing is read, the place stays. -/
theorem leads_stop (h : Stands tokens rest)
    (stops : ∀ t ts, rest = t :: ts → t.kind = .rbrace)
    (blocks : List Block) (n : Nat) (scope : List Text) :
    Leads tokens blocks (items tokens (n + 1) scope) rest rest := by
  refine ⟨List.suffix_refl _, {}, rfl, fun content => ?_⟩
  cases rest with
  | nil => simp [items, h]
  | cons t ts => simp [items, h, stops t ts rfl]

theorem scopeOf_cons (block : Block) (outer : List Block) :
    scopeOf (block :: outer) = scopeOf outer ++ block.components := by
  simp [scopeOf]

/-- At the end of a file the innermost block is reported first. -/
theorem readItems_nil_cons (stop : Token) (block : Block) (outer : List Block) :
    readItems stop (block :: outer) [] =
      .ofLog [Fault.unclosedNamespace.report block.location] ++
        readItems stop outer [] := by
  simp only [readItems.eq_def]
  rfl

theorem readItems_rbrace (stop : Token) (closes : t.kind = .rbrace)
    (block : Block) (outer : List Block) :
    readItems stop (block :: outer) (t :: ts) = readItems stop outer ts := by
  rw [readItems_cons, readItem_of_rbrace _ _ _ closes]
  rfl

/-- An item that opens a block is read up to its end, if all that is in the
block is. -/
theorem leads_item_of_opens {blocks : List Block}
    {reader : List Text → Reader Unit} (h : Stands tokens (t :: ts))
    (word : t.isWord "namespace" = true)
    {components : List Text} {between : List Token} {log : Log}
    (found :
      readNamespace (endMark tokens) ts = ⟨some components, between, log⟩)
    {rest' : List Token}
    (inside : Leads tokens (⟨t.location, components⟩ :: blocks)
        (reader (scopeOf blocks ++ components)) between rest')
    (stops : ∀ u us, rest' = u :: us → u.kind = .rbrace) :
    ∃ next, next <:+ ts ∧ Leads tokens blocks
        (item tokens reader (scopeOf blocks)) (t :: ts) next := by
  have kind := Token.kind_of_isWord word
  obtain ⟨there, opens⟩ := (follows_namespaceHead tokens t ts).of_eq found h
  have within : between <:+ ts := by
    have := within_readNamespace (endMark tokens) ts
    rwa [found] at this
  obtain ⟨added, content_eq, run⟩ := inside.reads
  have start :
      readItems (endMark tokens) blocks (t :: ts) =
        .ofLog log ++ readItems (endMark tokens)
            (⟨t.location, components⟩ :: blocks) between := by
    rw [readItems_cons, readItem_of_namespace _ _ _ word, found]
  cases rest' with
  | nil =>
    refine ⟨[], List.nil_suffix, List.nil_suffix, .ofLog log ++
      (added ++ .ofLog [Fault.unclosedNamespace.report t.location]),
      ?_, fun content => ?_⟩
    · rw [start, content_eq, readItems_nil_cons]
      simp [Content.append_assoc]
    · have ended := h.of_suffix (List.nil_suffix)
      simp [item, namespaceBlock, h, kind, word, opens, run, ended,
        run_skipRest ended, skipStatement, Content.append_assoc]
  | cons u us =>
    have closes := stops u us rfl
    have onward := there.of_suffix inside.suffix
    have tail := (List.suffix_cons u us).trans (inside.suffix.trans within)
    refine ⟨us, tail, tail.trans (List.suffix_cons t ts),
      .ofLog log ++ added, ?_, fun content => ?_⟩
    · rw [start, content_eq, readItems_rbrace _ closes, Content.append_assoc]
    · simp [item, namespaceBlock, h, kind, word, opens, run, onward, closes,
        Content.append_assoc]

/-- All items inside the blocks are read up to the end of the innermost one,
or of the file. -/
def ReadUp (tokens : List Token) (n : Nat) (blocks : List Block)
    (rest : List Token) : Prop :=
  ∃ rest', (∀ t ts, rest' = t :: ts → t.kind = .rbrace) ∧
    Leads tokens blocks (items tokens n (scopeOf blocks)) rest rest'

/-- An item is read if everything behind its first token is read up. -/
theorem exists_leads_item {n : Nat} {blocks : List Block} (named : Named blocks)
    (h : Stands tokens (t :: ts)) (other : t.kind ≠ .rbrace)
    (inner :
      ∀ blocks rest, Named blocks → rest <:+ ts → ReadUp tokens n blocks rest) :
    ∃ next, next <:+ ts ∧ Leads tokens blocks
        (item tokens (items tokens n) (scopeOf blocks)) (t :: ts) next := by
  by_cases stays : (readItem (endMark tokens) blocks t ts).blocks = blocks
  · have tail := readItem_suffix (endMark tokens) blocks ts (t := t)
    refine ⟨_, tail, tail.trans (List.suffix_cons t ts), _, ?_,
      run_item_of_stays named h other stays _⟩
    rw [readItems_cons, stays]
  · have opens : Named (readItem (endMark tokens) blocks t ts).blocks :=
      named_readItem named t ts
    obtain closes | hash | word | ends | start := item_cases t
    · exact absurd closes other
    · exact absurd (by rw [readItem_of_hash _ _ _ hash]) stays
    · have within := within_readNamespace (endMark tokens) ts
      rw [readItem_of_namespace _ _ _ word] at stays opens
      rcases found :
          readNamespace (endMark tokens) ts with ⟨_ | components, between, log⟩
      · simp [found] at stays
      · rw [found] at within opens
        obtain ⟨rest', stops, inside⟩ := inner _ _ opens within
        rw [scopeOf_cons] at inside
        exact leads_item_of_opens h word found inside stops
    · exact absurd (by rw [readItem_of_semicolon _ _ _ ends]) stays
    · exact absurd (by rw [readItem_of_definition _ _ _ start]) stays

theorem readUp {n : Nat} {blocks : List Block} (named : Named blocks)
    (h : Stands tokens rest) (enough : rest.length < n) :
    ReadUp tokens n blocks rest := by
  -- On the rounds, for all blocks at once: an item takes some tokens, and so
  -- does the start of a block.
  induction n generalizing rest blocks with
  | zero => exact absurd enough (Nat.not_lt_zero _)
  | succ n ih =>
    cases rest with
    | nil => exact ⟨[], by simp, leads_stop h (by simp) _ _ _⟩
    | cons t ts =>
      have inner (blocks : List Block) (rest : List Token)
          (named : Named blocks) (tail : rest <:+ ts) :
          ReadUp tokens n blocks rest :=
        ih named (h.tail.of_suffix tail)
          (Nat.lt_of_le_of_lt tail.length_le (Nat.lt_of_succ_lt_succ enough))
      by_cases closes : t.kind = .rbrace
      · have stops : ∀ u us, t :: ts = u :: us → u.kind = .rbrace := by
          rintro u us ⟨⟩
          exact closes
        exact ⟨t :: ts, stops, leads_stop h stops _ _ _⟩
      · obtain ⟨next, tail, first⟩ := exists_leads_item named h closes inner
        obtain ⟨rest', stops, second⟩ := inner blocks next named tail
        obtain ⟨suffix, added, found, run⟩ := first.trans second
        exact ⟨rest', stops, suffix, added, found,
          fun content => by simpa [items, h, closes] using run content⟩

/-! ## Whole files -/

/-- By position a file is read up to its end, and what is found is what is
read of a list. -/
theorem run_file {n : Nat} (h : Stands tokens rest)
    (enough : rest.length < n) (content : Content) :
    (file tokens n).run (before tokens rest content) =
      some ((),
        before tokens [] (content ++ readItems (endMark tokens) [] rest)) := by
  -- On the rounds: where reading stops before the end, a closing brace is
  -- passed.
  induction n generalizing rest content with
  | zero => exact absurd enough (Nat.not_lt_zero _)
  | succ n ih =>
    cases rest with
    | nil => simp [file, h]
    | cons t ts =>
      have outside : Named [] := by simp [Named]
      obtain ⟨rest', stops, suffix, added, found, run⟩ :=
        readUp outside h h.enough
      replace run : ∀ content,
          (items tokens tokens.length []).run
            (before tokens (t :: ts) content) =
            some ((), before tokens rest' (content ++ added)) :=
        run
      have there := h.of_suffix suffix
      have later : (t :: ts).length ≤ n := Nat.le_of_lt_succ enough
      rw [found]
      cases rest' with
      | nil =>
        have further : ([] : List Token).length < n :=
          Nat.lt_of_lt_of_le (Nat.succ_pos _) later
        simp [file, h, run, there, ih there further]
      | cons u us =>
        have closes := stops u us rfl
        have further : us.length < n :=
          Nat.lt_of_lt_of_le suffix.length_le later
        rw [readItems_cons, readItem_of_rbrace _ _ _ closes]
        simp [file, h, run, there, closes, ih there.tail further, place,
          Content.append_assoc]

/-! ## The end that is read up to -/

section
variable {front behind : List Token} {mark : Token}

theorem beforeEnd_append (free : ∀ t ∈ front, t.kind ≠ .eof)
    (ends : mark.kind = .eof) (behind : List Token) :
    beforeEnd (front ++ mark :: behind) = front := by
  have inside : ∀ t ∈ front, (t.kind != .eof) = true := by simpa using free
  rw [beforeEnd, List.takeWhile_append_of_pos inside,
    List.takeWhile_cons_of_neg (by simp [ends]), List.append_nil]

/-- A list is read up to the first mark of the end, and what stands behind
that is not looked at. -/
theorem run_file_append (free : ∀ t ∈ front, t.kind ≠ .eof)
    (ends : mark.kind = .eof) (behind : List Token) :
    (file (front ++ mark :: behind) (front ++ mark :: behind).length).run {} =
      some ((), ⟨front.length, readItems mark [] front⟩) := by
  have whole := beforeEnd_append free ends behind
  have first : endMark (front ++ mark :: behind) = mark := by
    rw [endMark, whole, List.getElem?_append_right (Nat.le_refl _),
      Nat.sub_self]
    rfl
  have start : before (front ++ mark :: behind) front {} = {} := by
    rw [before, whole, Nat.sub_self]
  have stands : Stands (front ++ mark :: behind) front :=
    ⟨⟨[], whole.symm⟩, by simp [whole]⟩
  rw [← start, run_file stands stands.enough, first, before, whole,
    Content.empty_append, List.length_nil, Nat.sub_zero]

end

theorem exists_closed_eq_append (path : Text) (tokens : List Token) :
    ∃ more, closed path tokens = tokens ++ more := by
  unfold closed
  split
  · split
    · exact ⟨[], (List.append_nil _).symm⟩
    · exact ⟨_, rfl⟩
  · rename_i none_there
    rw [List.getLast?_eq_none_iff.mp none_there]
    exact ⟨_, rfl⟩

theorem closed_cons (path : Text) (other : t.kind ≠ .eof) (ts : List Token) :
    closed path (t :: ts) = t :: closed path ts := by
  cases ts with
  | nil => simp [closed, other]
  | cons u us =>
    obtain ⟨last, found⟩ : ∃ last, (u :: us).getLast? = some last :=
      ⟨_, List.getLast?_eq_some_getLast (List.cons_ne_nil u us)⟩
    simp only [closed, List.getLast?_cons_cons, found]
    split <;> rfl

/-- With a mark of the end, a list of tokens starts with what is before the
first one, and that one. -/
theorem exists_closed_eq (path : Text) (tokens : List Token) :
    (endOf path tokens).kind = .eof ∧ ∃ behind,
      closed path tokens = beforeEnd tokens ++ endOf path tokens :: behind := by
  induction tokens with
  | nil => exact ⟨rfl, [], rfl⟩
  | cons t ts ih =>
    by_cases ends : t.kind = .eof
    · have first : endOf path (t :: ts) = t := by simp [endOf, ends]
      obtain ⟨more, whole⟩ := exists_closed_eq_append path (t :: ts)
      exact ⟨by rw [first, ends], ts ++ more,
        by simp [whole, first, beforeEnd, ends]⟩
    · have first : endOf path (t :: ts) = endOf path ts := by
        simp [endOf, ends]
      obtain ⟨kind, behind, same⟩ := ih
      refine ⟨by rw [first, kind], behind, ?_⟩
      rw [closed_cons path ends, same, first]
      simp [beforeEnd, ends]

/-- Whatever the tokens of a file are, reading them by position ends, with no
loop that goes round more often than there are tokens, and never looks outside
the list, behind the first mark of the end, or before the first token, for all
of that has no outcome. It ends right at that mark, having found what reading
the file yields, and what stands behind the mark makes no difference. -/
theorem file_read_to_first_end (path : Text) (tokens : List Token) :
    ∃ c, readFile path tokens = some c ∧
      (∀ i d, c.position < i → (look (closed path tokens) i).run d = none) ∧
      (∀ content, (previous (closed path tokens)).run ⟨0, content⟩ = none) ∧
      (closed path tokens).take c.position = beforeEnd tokens ∧
      (closed path tokens)[c.position]? = some (endOf path tokens) ∧
      (endOf path tokens).kind = .eof ∧ readTokens path tokens =
        ⟨{ path, includes := c.content.includes, mirrors := c.content.mirrors },
          c.content.log⟩ ∧
      ∀ behind,
        readFile path (beforeEnd tokens ++ endOf path tokens :: behind) =
          some c := by
  have free : ∀ t ∈ beforeEnd tokens, t.kind ≠ .eof :=
    fun _ => kind_of_mem_beforeEnd
  obtain ⟨ends, behind, same⟩ := exists_closed_eq path tokens
  have whole := beforeEnd_append free ends behind
  refine ⟨⟨(beforeEnd tokens).length,
      readItems (endOf path tokens) [] (beforeEnd tokens)⟩,
    ?_, fun i d far => ?_,
    fun _ => rfl, ?_, ?_, ends, rfl, fun behind => ?_⟩
  · rw [readFile, same, run_file_append free ends]
    rfl
  · rw [same]
    exact run_look_of_lt (by simp [whole]) (by simpa [whole] using far) d
  · rw [same, List.take_left]
  · rw [same, List.getElem?_append_right (Nat.le_refl _), Nat.sub_self]
    rfl
  · obtain ⟨more, whole⟩ :=
      exists_closed_eq_append path
        (beforeEnd tokens ++ endOf path tokens :: behind)
    rw [readFile, whole, List.append_assoc, List.cons_append,
      run_file_append free ends]
    rfl

end Cursor
end Decl
end MirrorAdapter
