import MirrorAdapter.Proofs.Cursor.Reader
import MirrorAdapter.Proofs.Items

/-!
# What readers by position do

A list of tokens that has a mark of the end is read from some point before the
first such mark. There the tokens left before the mark are the rest that
readers of lists are given, and a position stands for that rest. Looking and
moving then are what heads and tails are to a list, and skipping is the same.
-/
namespace MirrorAdapter
namespace Decl

namespace Content

@[simp] theorem ofLog_nil : ofLog [] = {} := rfl

/-- Reports are found in the order in which they are made. -/
@[simp] theorem append_ofLog (content : Content) (a b : Log) :
    content ++ ofLog a ++ ofLog b = content ++ ofLog (a ++ b) := by
  rw [append_assoc]
  rfl

end Content

section
variable {α β : Type}

@[simp] theorem Parsed.done_andThen (value : α)
    (rest : List Token) (second : α → List Token → Parsed β) :
    (Parsed.done value rest).andThen second = second value rest :=
  rfl

@[simp] theorem blame_andThen (stop : Token) (fault : Fault)
    (rest : List Token) (second : α → List Token → Parsed β) :
    (blame stop fault rest).andThen second = blame stop fault rest :=
  rfl

theorem Parsed.andThen_assoc {γ : Type} (p : Parsed α)
    (second : α → List Token → Parsed β) (third : β → List Token → Parsed γ) :
    (p.andThen second).andThen third =
      p.andThen fun a rest => (second a rest).andThen third := by
  obtain ⟨_ | a, rest, log⟩ := p
  · rfl
  · rcases found :
        second a rest
          with ⟨_ | b, between, more⟩ <;> simp [Parsed.andThen, found]

/-- What is put into another form afterwards was found before. -/
theorem Parsed.value_andThen_done {p : Parsed α} {form : α → β} {b : β}
    (h : (p.andThen fun a rest => .done (form a) rest).value = some b) :
    ∃ a, p.value = some a ∧ form a = b := by
  obtain ⟨_ | a, rest, log⟩ := p
  · simp [Parsed.andThen] at h
  · exact ⟨a, rfl, by simpa [Parsed.andThen, Parsed.done] using h⟩

end

namespace Cursor

variable {tokens : List Token}

/-! ## Standing before the rest -/

/-- The first mark of the end of a file. -/
def endMark (tokens : List Token) : Token :=
  (tokens[(beforeEnd tokens).length]?).getD default

/-- There is a mark of the end, and the rest is what is left before the first
one. -/
structure Stands (tokens rest : List Token) : Prop where
  suffix : rest <:+ beforeEnd tokens
  ends : (beforeEnd tokens).length < tokens.length

/-- The place before the rest, with what has been found so far. -/
def before (tokens rest : List Token) (content : Content) : Cursor :=
  ⟨(beforeEnd tokens).length - rest.length, content⟩

theorem kind_of_mem_beforeEnd {t : Token} (h : t ∈ beforeEnd tokens) :
    t.kind ≠ .eof := by
  have all := List.all_takeWhile (l := tokens) (p := fun t => t.kind != .eof)
  simpa using List.all_eq_true.mp all t h

theorem Stands.of_suffix {rest rest' : List Token} (h : Stands tokens rest)
    (tail : rest' <:+ rest) : Stands tokens rest' :=
  ⟨tail.trans h.suffix, h.ends⟩

theorem Stands.tail {t : Token} {ts : List Token}
    (h : Stands tokens (t :: ts)) : Stands tokens ts :=
  h.of_suffix (List.suffix_cons t ts)

theorem Stands.not_eof {t : Token} {ts : List Token}
    (h : Stands tokens (t :: ts)) : t.kind ≠ .eof :=
  kind_of_mem_beforeEnd (h.suffix.subset (.head _))

/-- Loops may go round once more than there are tokens left. -/
theorem Stands.enough {rest : List Token} (h : Stands tokens rest) :
    rest.length < tokens.length :=
  Nat.lt_of_le_of_lt h.suffix.length_le h.ends

/-- A loop that may still go round does so, and if a token is taken then it
may go on. -/
theorem exists_round {rest : List Token} {n : Nat}
    (enough : rest.length < n) : ∃ m, n = m + 1 ∧ rest.length ≤ m := by
  cases n with
  | zero => exact absurd enough (Nat.not_lt_zero _)
  | succ m => exact ⟨m, rfl, Nat.le_of_lt_succ enough⟩

theorem Stands.position_tail {t : Token} {ts : List Token}
    (h : Stands tokens (t :: ts)) (content : Content) :
    (before tokens ts content).position =
      (before tokens (t :: ts) content).position + 1 := by
  have := h.suffix.length_le
  simp only [before, List.length_cons] at this ⊢
  omega

/-- At the place before the rest stands its first token. -/
theorem Stands.getElem? {rest : List Token}
    (h : Stands tokens rest) (content : Content) :
    tokens[(before tokens rest content).position]? =
      some (rest.headD (endMark tokens)) := by
  obtain ⟨front, split⟩ := h.suffix
  have position : (before tokens rest content).position = front.length := by
    rw [before, ← split, List.length_append, Nat.add_sub_cancel]
  rw [position]
  cases rest with
  | nil =>
    rw [List.append_nil] at split
    rw [split, endMark, List.getElem?_eq_getElem h.ends]
    rfl
  | cons t ts =>
    have whole :
        tokens = beforeEnd tokens ++ tokens.dropWhile (·.kind != .eof) :=
      List.takeWhile_append_dropWhile.symm
    rw [whole, ← split, List.append_assoc,
      List.getElem?_append_right (Nat.le_refl _), Nat.sub_self]
    rfl

theorem kind_endMark (h : (beforeEnd tokens).length < tokens.length) :
    (endMark tokens).kind = .eof := by
  have whole :
      tokens = beforeEnd tokens ++ tokens.dropWhile (·.kind != .eof) :=
    List.takeWhile_append_dropWhile.symm
  have some_left : tokens.dropWhile (·.kind != .eof) ≠ [] := by
    intro nothing
    rw [nothing, List.append_nil] at whole
    rw [← whole] at h
    exact Nat.lt_irrefl _ h
  have stops :=
    List.head_dropWhile_not (fun t : Token => t.kind != .eof) some_left
  have first :
      tokens[(beforeEnd tokens).length]? =
        some ((tokens.dropWhile (·.kind != .eof)).head some_left) := by
    calc
      tokens[(beforeEnd tokens).length]? =
        (beforeEnd tokens ++
          tokens.dropWhile (·.kind != .eof))[(beforeEnd tokens).length]? :=
          congrArg (·[(beforeEnd tokens).length]?) whole
      _ = some ((tokens.dropWhile (·.kind != .eof)).head some_left) := by
        rw [List.getElem?_append_right (Nat.le_refl _), Nat.sub_self,
          ← List.head?_eq_getElem?, List.head?_eq_some_head]
  rw [endMark, first]
  simpa using stops

/-- Nothing before that place is a mark of the end. -/
theorem all_take (rest : List Token) (content : Content) :
    (tokens.take (before tokens rest content).position).all (·.kind != .eof) =
      true := by
  rw [List.all_eq_true]
  intro t inside
  have short :
      tokens.take (before tokens rest content).position <+:
        beforeEnd tokens := by
    refine List.prefix_of_prefix_length_le (List.take_prefix _ _)
      (List.takeWhile_prefix _) ?_
    rw [List.length_take, before]
    exact Nat.le_trans (Nat.min_le_left _ _) (Nat.sub_le _ _)
  simpa using kind_of_mem_beforeEnd (short.subset inside)

/-! ## Looking and moving -/

/-- Behind the first mark of the end nothing can be looked at. -/
theorem run_look_of_lt (ends : (beforeEnd tokens).length < tokens.length)
    {i : Nat} (far : (beforeEnd tokens).length < i) (c : Cursor) :
    (look tokens i).run c = none := by
  have passed : endMark tokens ∈ tokens.take i := by
    refine List.mem_of_getElem? (?_ : _[(beforeEnd tokens).length]? = _)
    rw [List.getElem?_take_of_lt far, endMark, List.getElem?_eq_getElem ends]
    rfl
  have behind : ¬(tokens.take i).all (·.kind != .eof) = true := fun all => by
    simpa [kind_endMark ends] using List.all_eq_true.mp all _ passed
  rw [look, if_neg behind]
  rfl

@[simp] theorem startsWith_nil (kind : Token.Kind) :
    Token.startsWith kind [] = false := rfl

@[simp] theorem startsWith_cons (kind : Token.Kind) (t : Token)
    (ts : List Token) : Token.startsWith kind (t :: ts) = (t.kind == kind) :=
  rfl

theorem run_contribute (rest : List Token) (content added : Content) :
    (contribute added).run (before tokens rest content) =
      some ((), before tokens rest (content ++ added)) :=
  rfl

@[simp] theorem run_report (rest : List Token)
    (content : Content) (d : Diagnostic) :
    (report d).run (before tokens rest content) =
      some ((), before tokens rest (content ++ .ofLog [d])) :=
  rfl

section
variable {rest : List Token} (h : Stands tokens rest) (content : Content)
include h

theorem run_look (c : Cursor) :
    (look tokens (before tokens rest content).position).run c =
      some (rest.headD (endMark tokens), c) := by
  rw [look, if_pos (all_take rest content), h.getElem? content]
  rfl

@[simp] theorem run_current :
    (current tokens).run (before tokens rest content) =
      some (rest.headD (endMark tokens), before tokens rest content) := by
  simpa [current] using run_look h content _

@[simp] theorem run_checkWord (word : Text) :
    (checkWord tokens word).run (before tokens rest content) =
      some ((rest.headD (endMark tokens)).isWord word,
        before tokens rest content) := by
  simp [checkWord, h]

/-- At the end there is no other mark than that of the end. -/
@[simp] theorem run_check {kind : Token.Kind} (mark : kind ≠ .eof) :
    (check tokens kind).run (before tokens rest content) =
      some (Token.startsWith kind rest, before tokens rest content) := by
  cases rest with
  | nil => simp [check, h, kind_endMark h.ends, mark.symm]
  | cons t ts => simp [check, h]

@[simp] theorem run_onLine (line : UInt32) :
    (onLine tokens line).run (before tokens rest content) =
      some ((rest.headD (endMark tokens)).line == line,
        before tokens rest content) := by
  simp [onLine, h]

@[simp] theorem run_atEnd : (atEnd tokens).run (before tokens rest content) =
    some (rest.isEmpty, before tokens rest content) := by
  cases rest with
  | nil => simp [atEnd, h, kind_endMark h.ends]
  | cons t ts => simp [atEnd, h, h.not_eof]

@[simp] theorem run_blame {α : Type} (fault : Fault) :
    (blame tokens fault : Reader (Option α)).run (before tokens rest content) =
      some (none, before tokens rest (content ++
          .ofLog [fault.report (place (endMark tokens) rest)])) := by
  simp [blame, h, place]

end

section
variable {t : Token} {ts : List Token} (h : Stands tokens (t :: ts))
    (content : Content)
include h

theorem before_tail : before tokens ts content =
    ⟨(before tokens (t :: ts) content).position + 1, content⟩ := by
  rw [← h.position_tail content]
  rfl

/-- What was passed last is behind the place. -/
theorem run_previous :
    (previous tokens).run (before tokens ts content) =
      some (t, before tokens ts content) := by
  rw [before_tail h content]
  exact run_look h content _

@[simp] theorem run_advance :
    (advance tokens).run (before tokens (t :: ts) content) =
      some (t, before tokens ts content) := by
  have moves :
      (modify fun c : Cursor =>
            { c with position := c.position + 1 } : Reader PUnit).run
        (before tokens (t :: ts) content) =
        some ((), before tokens ts content) := by
    rw [before_tail h content]
    rfl
  simp [advance, h, moves, run_previous h]

/-- The token behind the first one is looked at where there is a first one. -/
@[simp] theorem run_peek :
    (peek tokens 1).run (before tokens (t :: ts) content) =
      some (ts.headD (endMark tokens), before tokens (t :: ts) content) := by
  have inside :
      min ((before tokens (t :: ts) content).position + 1) (tokens.length - 1) =
        (before tokens ts content).position := by
    rw [h.position_tail content]
    have := h.ends
    have := h.suffix.length_le
    simp only [before, List.length_cons] at this ⊢
    omega
  simp [peek, inside, run_look h.tail]

/-- Of two rests, the shorter one is behind the first token of the other. -/
theorem suffix_of_shorter {rest : List Token} (there : Stands tokens rest)
    (shorter : rest.length < (t :: ts).length) : rest <:+ ts :=
  List.suffix_of_suffix_length_le there.suffix h.tail.suffix
    (Nat.le_of_lt_succ shorter)

/-- A reader that has moved is not stuck. -/
theorem run_unstick {rest : List Token}
    (moved : rest <:+ ts) (content' : Content) :
    (unstick tokens (before tokens (t :: ts) content).position).run
      (before tokens rest content') =
      some ((), before tokens rest content') := by
  have further :
      (before tokens rest content').position ≠
        (before tokens (t :: ts) content).position := by
    have := moved.length_le
    have := h.suffix.length_le
    simp only [before, List.length_cons] at this ⊢
    omega
  simp [unstick, further]

end

@[simp] theorem run_accept {rest : List Token} (h : Stands tokens rest)
    (content : Content) {kind : Token.Kind} (mark : kind ≠ .eof) :
    (accept tokens kind).run (before tokens rest content) =
      some (Token.startsWith kind rest,
        before tokens (if Token.startsWith kind rest then rest.tail else rest)
          content) := by
  cases rest with
  | nil => simp [accept, h, mark]
  | cons t ts =>
    by_cases same : t.kind = kind <;> simp [accept, h, mark, same]

/-! ## Steps of both readers -/

section
variable {α β : Type} {rest : List Token}

/-- Before the rest, the reader does by position what the reading step does to
the rest. -/
structure Follows (tokens rest : List Token) (reader : Reader (Option α))
    (step : Parsed α) : Prop where
  within : step.Within rest
  run : Stands tokens rest →
    ∀ content, reader.run (before tokens rest content) =
        some (step.value, before tokens step.rest (content ++ .ofLog step.log))

/-- The step that yields what was found, or reports what is wrong with it. -/
def settled (found : Except Diagnostic α) (rest : List Token) : Parsed α :=
  match found with
  | .ok a => .done a rest
  | .error wrong => .giveUp rest wrong

/-- Where it is known what the step does, so it is what the reader does. -/
theorem Follows.of_eq {reader : Reader (Option α)} {step : Parsed α}
    {value : Option α} {between : List Token} {log : Log}
    (follows : Follows tokens rest reader step)
    (found : step = ⟨value, between, log⟩) (h : Stands tokens rest) :
    Stands tokens between ∧
    ∀ content, reader.run (before tokens rest content) =
        some (value, before tokens between (content ++ .ofLog log)) := by
  subst found
  exact ⟨h.of_suffix follows.within, follows.run h⟩

theorem follows_done (value : α) (rest : List Token) :
    Follows tokens rest (return some value) (.done value rest) where
  within := Parsed.within_done _ _
  run _ content := by simp [Parsed.done]

theorem follows_settle (found : Except Diagnostic α) (rest : List Token) :
    Follows tokens rest (settle found) (settled found rest) := by
  cases found with
  | ok a => exact follows_done a rest
  | error wrong =>
    exact ⟨Parsed.within_giveUp _ _,
      fun _ content => by simp [settle, settled, Parsed.giveUp]⟩

/-- What goes on with a value follows what goes on behind the step that found
it. -/
theorem Follows.andThen_of_eq {reader : Reader (Option α)} {step : Parsed α}
    {next : α → Reader (Option β)} {more : α → List Token → Parsed β}
    (first : Follows tokens rest reader step)
    (within : (step.andThen more).Within rest)
    (second : ∀ a, step.value = some a →
        Follows tokens step.rest (next a) (more a step.rest)) :
    Follows tokens rest (reader.andThen next) (step.andThen more) where
  within := within
  run h content := by
    have there := h.of_suffix first.within
    have run := first.run h content
    obtain ⟨_ | a, between, log⟩ := step
    · simp [Reader.andThen, run, Parsed.andThen]
    · simp [Reader.andThen, run, (second a rfl).run there, Parsed.andThen]

theorem Follows.andThen {reader : Reader (Option α)} {step : Parsed α}
    {next : α → Reader (Option β)} {more : α → List Token → Parsed β}
    (first : Follows tokens rest reader step)
    (second : ∀ a between, Follows tokens between (next a) (more a between)) :
    Follows tokens rest (reader.andThen next) (step.andThen more) :=
  first.andThen_of_eq
    (first.within.andThen fun a between => (second a between).within)
    fun a _ => second a _

/-- Every mark but that of the end can be expected. -/
theorem follows_expect (tokens : List Token) (kind : Token.Kind)
    (mark : kind ≠ .eof) (fault : Fault) (rest : List Token) :
    Follows tokens rest (expect tokens kind fault)
      (Decl.expect (endMark tokens) kind fault rest) where
  within := within_expect _ _ _ _
  run h content := by
    cases rest with
    | nil =>
      simp [Cursor.expect, h, mark, Decl.expect, Decl.blame, Parsed.giveUp]
    | cons t ts =>
      by_cases same : t.kind = kind
      · simp [Cursor.expect, h, mark, same, Decl.expect, Parsed.done]
      · simp [Cursor.expect, h, mark, same, Decl.expect, Decl.blame,
          Parsed.giveUp]

end

/-! ## Skipping -/

theorem run_skipFrom {depth n : Nat} {rest : List Token}
    (h : Stands tokens rest) (enough : rest.length < n) (content : Content) :
    (skipFrom tokens n depth).run (before tokens rest content) =
      some ((), before tokens (skipStatement depth rest) content) := by
  -- In each case one round is taken, and where the loop goes on there are
  -- enough left for the tokens left.
  fun_induction skipStatement depth rest generalizing n with
    obtain ⟨n, rfl, later⟩ := exists_round enough
  | case1 => simp [skipFrom, h]
  | case2 depth t ts kind ih => simp [skipFrom, h, kind, ih h.tail later]
  | case3 t ts kind => simp [skipFrom, h, kind]
  | case4 t ts kind => simp [skipFrom, h, h.tail, kind, skipSemicolon]
  | case5 t ts kind outer ih => simp [skipFrom, h, kind, ih h.tail later]
  | case6 t ts kind => simp [skipFrom, h, kind]
  | case7 depth t ts kind inside ih =>
    simp [skipFrom, h, kind, inside, ih h.tail later]
  | case8 depth t ts opens closes ends ih =>
    replace opens : t.kind ≠ .lbrace := opens
    replace closes : t.kind ≠ .rbrace := closes
    replace ends : t.kind ≠ .semicolon := ends
    simp [skipFrom, h, opens, closes, ends, ih h.tail later]

theorem run_skipRest {rest : List Token}
    (h : Stands tokens rest) (content : Content) :
    (skipRest tokens).run (before tokens rest content) =
      some ((), before tokens (skipStatement 0 rest) content) :=
  run_skipFrom h h.enough content

/-- A member is skipped like a statement, but for a semicolon at its end. -/
theorem run_skipMemberFrom {depth n : Nat} {rest : List Token}
    (h : Stands tokens rest) (enough : rest.length < n) :
    ∃ between,
      between <:+ rest ∧ skipSemicolon between = skipStatement depth rest ∧
      ∀ content,
        (skipMemberFrom tokens n depth).run (before tokens rest content) =
          some ((), before tokens between content) := by
  fun_induction skipStatement depth rest generalizing n with
    obtain ⟨n, rfl, later⟩ := exists_round enough
  | case1 =>
    exact ⟨[], List.suffix_refl _, rfl,
      fun content => by simp [skipMemberFrom, h]⟩
  | case2 depth t ts kind ih =>
    obtain ⟨between, tail, same, reads⟩ := ih h.tail later
    exact ⟨between, tail.trans (List.suffix_cons t ts), same, fun content => by
      simp [skipMemberFrom, h, run_previous h, kind, reads]⟩
  | case3 t ts kind =>
    exact ⟨t :: ts, List.suffix_refl _, by simp [skipSemicolon, kind],
      fun content => by simp [skipMemberFrom, h, kind]⟩
  | case4 t ts kind =>
    exact ⟨ts, List.suffix_cons t ts, rfl,
      fun content => by simp [skipMemberFrom, h, run_previous h, kind]⟩
  | case5 t ts kind outer ih =>
    obtain ⟨between, tail, same, reads⟩ := ih h.tail later
    exact ⟨between, tail.trans (List.suffix_cons t ts), same, fun content => by
      simp [skipMemberFrom, h, run_previous h, kind, reads]⟩
  | case6 t ts kind =>
    exact ⟨t :: ts, List.suffix_refl _, by simp [skipSemicolon, kind],
      fun content => by simp [skipMemberFrom, h, kind]⟩
  | case7 depth t ts kind inside ih =>
    obtain ⟨between, tail, same, reads⟩ := ih h.tail later
    exact ⟨between, tail.trans (List.suffix_cons t ts), same, fun content => by
      simp [skipMemberFrom, h, run_previous h, kind, inside, reads]⟩
  | case8 depth t ts opens closes ends ih =>
    replace opens : t.kind ≠ .lbrace := opens
    replace closes : t.kind ≠ .rbrace := closes
    replace ends : t.kind ≠ .semicolon := ends
    obtain ⟨between, tail, same, reads⟩ := ih h.tail later
    exact ⟨between, tail.trans (List.suffix_cons t ts), same, fun content => by
      simp [skipMemberFrom, h, run_previous h, opens, closes, ends, reads]⟩

theorem run_skipMember {rest : List Token} (h : Stands tokens rest) :
    ∃ between,
      between <:+ rest ∧ skipSemicolon between = skipStatement 0 rest ∧
      ∀ content, (skipMember tokens).run (before tokens rest content) =
          some ((), before tokens between content) :=
  run_skipMemberFrom h h.enough

theorem run_skipLineFrom {line : UInt32} {n : Nat} {rest : List Token}
    (h : Stands tokens rest) (enough : rest.length < n) (content : Content) :
    (skipLineFrom tokens line n).run (before tokens rest content) =
      some ((), before tokens (rest.dropWhile (·.line == line)) content) := by
  induction rest generalizing n with
    obtain ⟨n, rfl, later⟩ := exists_round enough
  | nil => simp [skipLineFrom, h]
  | cons t ts ih =>
    by_cases same : t.line = line
    · simp [skipLineFrom, h, same, ih h.tail later]
    · simp [skipLineFrom, h, same]

theorem run_skipLine {rest : List Token} (h : Stands tokens rest)
    (line : UInt32) (content : Content) :
    (skipLine tokens line).run (before tokens rest content) =
      some ((), before tokens (rest.dropWhile (·.line == line)) content) :=
  run_skipLineFrom h h.enough content

end Cursor
end Decl
end MirrorAdapter
