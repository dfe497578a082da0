import MirrorAdapter.Decl.Basic
import MirrorAdapter.Decl.Fault

/-!
# Reading steps

Grammar is read from a list of tokens without the mark of the end of the file.
A step yields a value or gives up; either way it says what it did not consume
and what it reports. What is left is always a tail of what there was
(`Parsed.Within`), which is why reading comes to an end.
-/
namespace MirrorAdapter
namespace Decl

/-- The outcome of a reading step: its value unless it gave up, the tokens
left, and its reports. -/
structure Parsed (α : Type) where
  value : Option α
  rest : List Token
  log : Log := []

namespace Parsed

variable {α β : Type}

def done (value : α) (rest : List Token) : Parsed α := ⟨some value, rest, []⟩

def giveUp (rest : List Token) (report : Diagnostic) : Parsed α :=
  ⟨none, rest, [report]⟩

/-- Reads on with what the first step found and left. Where it gave up, so
does the whole. -/
def andThen (first : Parsed α) (second : α → List Token → Parsed β) :
    Parsed β :=
  match first with
  | ⟨none, rest, log⟩ => ⟨none, rest, log⟩
  | ⟨some value, rest, log⟩ =>
    let next := second value rest
    ⟨next.value, next.rest, log ++ next.log⟩

/-- What is left is a tail of the given tokens. -/
def Within (p : Parsed α) (tokens : List Token) : Prop := p.rest <:+ tokens

theorem within_done (value : α) (tokens : List Token) :
    (done value tokens).Within tokens :=
  List.suffix_refl tokens

theorem within_giveUp (tokens : List Token) (report : Diagnostic) :
    (giveUp tokens report : Parsed α).Within tokens :=
  List.suffix_refl tokens

theorem Within.cons {p : Parsed α} {tokens : List Token}
    (h : p.Within tokens) (t : Token) : p.Within (t :: tokens) :=
  h.trans (List.suffix_cons t tokens)

theorem Within.trans {p : Parsed α} {tokens more : List Token}
    (h : p.Within tokens) (h' : tokens <:+ more) : p.Within more :=
  List.IsSuffix.trans h h'

theorem Within.andThen {p : Parsed α} {second : α → List Token → Parsed β}
    {tokens : List Token} (h : p.Within tokens)
    (h' : ∀ value rest, (second value rest).Within rest) :
    (p.andThen second).Within tokens := by
  obtain ⟨value, rest, log⟩ := p
  cases value with
  | none => exact h
  | some value => exact (h' value rest).trans h

/-- A value of the whole comes from values of both steps. -/
theorem andThen_eq_some {p : Parsed α} {second : α → List Token → Parsed β}
    {value : β} {rest : List Token} {log : Log}
    (h : p.andThen second = ⟨some value, rest, log⟩) :
    ∃ first between log₁ log₂, p = ⟨some first, between, log₁⟩ ∧
      second first between = ⟨some value, rest, log₂⟩ ∧ log = log₁ ++ log₂ := by
  obtain ⟨first, between, log₁⟩ := p
  cases first with
  | none => simp [andThen] at h
  | some first =>
    simp only [andThen, mk.injEq] at h
    obtain ⟨hvalue, hrest, hlog⟩ := h
    exact ⟨first, between, log₁, _, rfl, by rw [← hvalue, ← hrest], hlog.symm⟩

end Parsed

section
variable (stop : Token)

/-- Where the next token stands; past the last one, where the file ends. -/
def place (tokens : List Token) : Location := (tokens.headD stop).location

/-- Gives up, reporting a fault at the next token. -/
def blame {α : Type} (fault : Fault) (tokens : List Token) : Parsed α :=
  .giveUp tokens (fault.report (place stop tokens))

/-- Consumes the next token if it is of the kind; otherwise reports the fault
at it. -/
def expect (kind : Token.Kind) (fault : Fault) (tokens : List Token) :
    Parsed Token :=
  match tokens with
  | [] => blame stop fault []
  | t :: rest =>
    if t.kind = kind then .done t rest else blame stop fault (t :: rest)

theorem within_blame {α : Type} (fault : Fault) (tokens : List Token) :
    (blame stop fault tokens : Parsed α).Within tokens :=
  Parsed.within_giveUp tokens _

theorem within_expect (kind : Token.Kind) (fault : Fault)
    (tokens : List Token) : (expect stop kind fault tokens).Within tokens := by
  unfold expect
  split
  · exact within_blame stop fault []
  · split
    · exact (Parsed.within_done _ _).cons _
    · exact within_blame stop fault _

theorem expect_length_lt {kind : Token.Kind}
    {fault : Fault} {tokens rest : List Token} {t : Token}
    {log : Log} (h : expect stop kind fault tokens = ⟨some t, rest, log⟩) :
    rest.length < tokens.length := by
  unfold expect at h
  split at h
  · simp [blame, Parsed.giveUp] at h
  · split at h
    · simp only [Parsed.done, Parsed.mk.injEq] at h
      rw [← h.2.1, List.length_cons]
      exact Nat.lt_succ_self _
    · simp [blame, Parsed.giveUp] at h

end

/-- Leaves out a semicolon at the start. -/
def skipSemicolon (tokens : List Token) : List Token :=
  if Token.startsWith .semicolon tokens then tokens.tail else tokens

/-- Skips a statement inside `depth` open braces: up to and including a
semicolon outside all braces, or the brace that closes the last one together
with a semicolon after it. A closing brace that none of them opened stays.
Other brackets do not count. -/
def skipStatement : Nat → List Token → List Token
  | _, [] => []
  | depth, t :: ts =>
    match t.kind with
    | .lbrace => skipStatement (depth + 1) ts
    | .rbrace =>
      match depth with
      | 0 => t :: ts
      | 1 => skipSemicolon ts
      | outer + 2 => skipStatement (outer + 1) ts
    | .semicolon => if depth = 0 then ts else skipStatement depth ts
    | _ => skipStatement depth ts

theorem skipSemicolon_suffix (tokens : List Token) :
    skipSemicolon tokens <:+ tokens := by
  unfold skipSemicolon
  split
  · exact List.tail_suffix tokens
  · exact List.suffix_refl tokens

theorem skipStatement_suffix (depth : Nat) (tokens : List Token) :
    skipStatement depth tokens <:+ tokens := by
  fun_induction skipStatement depth tokens with
  | case1 => exact List.suffix_refl []
  | case2 _ _ _ _ ih => exact ih.trans (List.suffix_cons _ _)
  | case3 => exact List.suffix_refl _
  | case4 => exact (skipSemicolon_suffix _).trans (List.suffix_cons _ _)
  | case5 _ _ _ _ ih => exact ih.trans (List.suffix_cons _ _)
  | case6 => exact List.suffix_cons _ _
  | case7 _ _ _ _ _ ih => exact ih.trans (List.suffix_cons _ _)
  | case8 _ _ _ _ _ _ ih => exact ih.trans (List.suffix_cons _ _)

/-- At anything but a closing brace, skipping consumes a token. -/
theorem skipStatement_length_lt {t : Token}
    (h : t.kind ≠ .rbrace) (ts : List Token) :
    (skipStatement 0 (t :: ts)).length < (t :: ts).length := by
  have bound (depth : Nat) : (skipStatement depth ts).length ≤ ts.length :=
    (skipStatement_suffix depth ts).length_le
  rw [List.length_cons, skipStatement]
  split
  · have := bound (0 + 1)
    omega
  · contradiction
  · simp
  · have := bound 0
    omega

/-- Skipping from any point behind a token that is no closing brace leaves
less than from that token on. -/
theorem skipStatement_within_lt {t : Token} (h : t.kind ≠ .rbrace)
    {ts rest : List Token} (within : rest <:+ t :: ts) :
    (skipStatement 0 rest).length < (t :: ts).length := by
  rcases List.suffix_cons_iff.mp within with same | tail
  · rw [same]
    exact skipStatement_length_lt h ts
  · have skipped := (skipStatement_suffix 0 rest).length_le
    have := tail.length_le
    simp only [List.length_cons]
    omega

end Decl
end MirrorAdapter
