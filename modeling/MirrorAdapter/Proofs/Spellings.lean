import Mathlib.Data.List.Chain
import MirrorAdapter.Mapping.TypeSpelling
import MirrorAdapter.Proofs.Lexemes
import MirrorAdapter.Token.Spelling

/-!
# Spellings without blanks

Types are compared by their spellings, from which blanks and each `::` at
global scope are left out. Said of tokens, the latter is a `::` that does not
go on with a name, and the former makes one word of neighbouring words: apart
from that, tokens can be read off the text without blanks.
-/
namespace MirrorAdapter

open TypeSpelling (dropGlobalScopes opensScope)

/-- The text without blanks, tabs and line feeds. -/
def Text.unspaced (s : Text) : Text :=
  s.filter fun b => b != ' ' && b != '\t' && b != '\n'

theorem Text.unspaced_append (a b : Text) :
    (a ++ b).unspaced = a.unspaced ++ b.unspaced :=
  List.filter_append _ _

theorem Text.unspaced_eq_self {s : Text}
    (h : ∀ b ∈ s, (b != ' ' && b != '\t' && b != '\n') = true) :
    s.unspaced = s :=
  List.filter_eq_self.mpr h

/-- No two colons stand side by side. -/
def Text.ColonsApart (s : Text) : Prop :=
  s.IsChain fun a b : Byte => a = ':' → b ≠ ':'

instance (s : Text) : Decidable s.ColonsApart :=
  inferInstanceAs (Decidable (s.IsChain fun a b : Byte => a = ':' → b ≠ ':'))

theorem Text.colonsApart_of_not_mem {s : Text} (h : (':' : Byte) ∉ s) :
    s.ColonsApart := by
  induction s with
  | nil => exact .nil
  | cons a s ih =>
    rw [List.mem_cons, not_or] at h
    exact List.isChain_cons.mpr ⟨fun _ _ colon => absurd colon.symm h.1, ih h.2⟩

/-! ## Dropping on texts -/

namespace TypeSpelling

theorem key_eq (spelling : Text) :
    key spelling = dropGlobalScopes true spelling.unspaced := rfl

/-- Whether a `::` behind the text is dropped. -/
def opensBehind (atStart : Bool) (s : Text) : Bool :=
  (s.getLast?.map opensScope).getD atStart

theorem opensBehind_cons (atStart : Bool) (a : Byte) (s : Text) :
    opensBehind atStart (a :: s) = opensBehind (opensScope a) s := by
  cases last : s.getLast? <;> simp [opensBehind, List.getLast?_cons, last]

/-- A text with colons one by one is kept as it is. -/
theorem dropGlobalScopes_append {s rest : Text}
    (atStart : Bool) (apart : s.ColonsApart)
    (beside : ∀ a ∈ s.getLast?, ∀ b ∈ rest.head?, a = ':' → b ≠ ':') :
    dropGlobalScopes atStart (s ++ rest) =
      s ++ dropGlobalScopes (opensBehind atStart s) rest := by
  induction s generalizing atStart with
  | nil => rfl
  | cons a s ih =>
    rw [Text.ColonsApart, List.isChain_cons] at apart
    rw [opensBehind_cons, List.cons_append]
    have later := ih (opensScope a) apart.2 fun c last => by
      cases s with
      | nil => cases last
      | cons _ _ => exact beside c (by simpa using last)
    have next : ∀ b ∈ (s ++ rest).head?, a = ':' → b ≠ ':' := by
      cases s with
      | nil => exact beside a rfl
      | cons b s => exact apart.1
    generalize s ++ rest = whole at later next
    cases whole with
    | nil =>
      rw [List.cons_append, ← later]
      rfl
    | cons b whole =>
      rw [dropGlobalScopes,
        if_neg (by rintro ⟨-, colon, same⟩; exact next b rfl colon same),
        later, List.cons_append]

theorem dropGlobalScopes_scope (rest : Text) :
    dropGlobalScopes false ((':' : Byte) :: (':' : Byte) :: rest) =
      (':' : Byte) :: (':' : Byte) :: dropGlobalScopes false rest := by
  cases rest <;> rfl

end TypeSpelling

namespace Token

open TypeSpelling (opensBehind)

/-! ## Texts of tokens -/

/-- A byte of a name or a number. -/
def isWordByte (b : Byte) : Bool := Piece.isNameByte b || b == '\''

theorem isWordByte_apart (b : Byte) :
    isWordByte b = true → (b != ' ' && b != '\t' && b != '\n') = true ∧
    b ≠ ':' ∧ opensScope b = false :=
  Byte.forall_of_lt (P := fun b =>
        isWordByte b = true → (b != ' ' && b != '\t' && b != '\n') = true ∧
        b ≠ ':' ∧ opensScope b = false)
    (by decide +kernel) b

/-- Behind such a mark a name can start, so a `::` there stands for the global
scope. -/
def startsName (k : Kind) : Bool := k == .less || k == .comma || k == .lparen

theorem ofByte_marks (b : Byte) :
    (Kind.ofByte b = .colon ↔ b = ':') ∧
    startsName (Kind.ofByte b) = opensScope b ∧
    (b.isSpace = false → (b != ' ' && b != '\t' && b != '\n') = true) :=
  Byte.forall_of_lt (P := fun b => (Kind.ofByte b = .colon ↔ b = ':') ∧
        startsName (Kind.ofByte b) = opensScope b ∧
        (b.isSpace = false → (b != ' ' && b != '\t' && b != '\n') = true))
    (by decide +kernel) b

/-- The token has a text that fits its kind, and is not the end of a file. -/
structure Proper (t : Token) : Prop where
  lexical : t.Lexical
  inside : t.kind ≠ .eof

/-- What is written for a token without blanks, `value` being its text. -/
inductive Shape (value : Text) : Kind → Text → Prop
  | word {k : Kind} {b : Byte} {rest : Text} :
      k = (if b.isDigit then .integer else .identifier) →
      (∀ c ∈ b :: rest, isWordByte c = true) → Shape value k (b :: rest)
  | string :
      Shape value .string (('"' : Byte) :: value.unspaced ++ [('"' : Byte)])
  | scope : Shape value .scope [':', ':']
  | mark {b : Byte} : IsMark b → Shape value (.ofByte b) [b]

theorem shape_text {t : Token} (h : t.Proper) (plain : t.kind ≠ .string) :
    Shape t.text t.kind t.text := by
  obtain ⟨kind, text, location⟩ := t
  obtain ⟨spells, inside⟩ := h
  replace spells : kind.Spells text := spells
  cases spells with
  | eof => exact absurd rfl inside
  | identifier letter bytes =>
    exact .word (by simp [letter])
      fun c found => by simp [isWordByte, bytes c found]
  | integer digit bytes =>
    refine .word (by simp [digit]) fun c found => ?_
    have number := bytes c found
    simp only [Piece.isNumberByte, Bool.or_eq_true] at number
    simp only [isWordByte, Piece.isNameByte, Bool.or_eq_true]
    exact number.imp_left .inl
  | string => exact absurd rfl plain
  | scope => exact .scope
  | mark isMark kind =>
    subst kind
    exact .mark isMark

theorem Shape.unspaced {value s : Text} {k : Kind} (h : Shape value k s)
    (plain : k ≠ .string) : s.unspaced = s := by
  cases h with
  | word _ bytes =>
    exact Text.unspaced_eq_self
      fun c found => (isWordByte_apart c (bytes c found)).1
  | string => exact absurd rfl plain
  | scope => rfl
  | @mark b isMark =>
    exact Text.unspaced_eq_self
      (by simpa using (ofByte_marks b).2.2 isMark.notSpace)

theorem unspaced_written {t : Token} (h : t.Proper)
    (plain : t.kind ≠ .string) : t.written.unspaced = t.text := by
  have kept := (shape_text h plain).unspaced plain
  unfold written
  split
  · exact absurd ‹_› plain
  · rw [Text.unspaced_append, kept]
    exact List.append_nil _
  · exact kept

theorem shape_written {t : Token} (h : t.Proper) :
    Shape t.text t.kind t.written.unspaced := by
  by_cases string : t.kind = .string
  · have quotes :
        t.written.unspaced =
          ('"' : Byte) :: t.text.unspaced ++ [('"' : Byte)] := by
      rw [written, string, Text.unspaced_append, Text.unspaced_append]
      rfl
    rw [quotes, string]
    exact .string
  · rw [unspaced_written h string]
    exact shape_text h string

/-! ## Dropping on tokens -/

/-- The texts of tokens put together, without blanks. -/
def compact (ts : List Token) : Text := ts.flatMap fun t => t.written.unspaced

/-- The blanks that a spelling puts between tokens do not count. -/
theorem unspaced_spell (ts : List Token) :
    (spell ts).unspaced = compact ts := by
  fun_induction spell ts with
  | case1 => rfl
  | case2 t => simp [compact]
  | case3 t u rest ih =>
    have between : (separator t u).unspaced = [] := by
      unfold separator
      split <;> rfl
    rw [Text.unspaced_append, Text.unspaced_append, between, ih]
    simp [compact]

/-- Whether a `::` behind the token goes on with a name. -/
def continuesName (t : Token) : Bool :=
  t.kind == .identifier || t.kind == .greater

/-- The tokens without each `::` at global scope: one that no name goes on
with. -/
def withoutGlobal (previous : Option Token) : List Token → List Token
  | [] => []
  | t :: ts =>
    if t.kind = .scope ∧ previous.any continuesName = false then
      withoutGlobal (some t) ts
    else t :: withoutGlobal (some t) ts

/-- The second token can follow the first: a `::` goes on with a name or
stands where one can start, and a colon stands by itself. -/
def Beside (t u : Token) : Prop :=
  (u.kind = .scope → continuesName t = true ∨ startsName t.kind = true) ∧
    (u.kind = .colon → t.kind ≠ .colon)

/-- Tokens of a type in which colons come together in `::` only, and `::`
stands in its usual places only. -/
structure Regular (ts : List Token) : Prop where
  beside : ts.IsChain Beside
  strings : ∀ t ∈ ts, t.kind = .string → t.text.unspaced.ColonsApart

instance (t u : Token) : Decidable (Beside t u) :=
  inferInstanceAs (Decidable
      ((u.kind = .scope → continuesName t = true ∨ startsName t.kind = true) ∧
        (u.kind = .colon → t.kind ≠ .colon)))

instance (ts : List Token) : Decidable (Regular ts) :=
  decidable_of_iff (ts.IsChain Beside ∧
      ∀ t ∈ ts, t.kind = .string → t.text.unspaced.ColonsApart)
    ⟨fun h => ⟨h.1, h.2⟩, fun h => ⟨h.beside, h.strings⟩⟩

theorem Regular.tail {t : Token} {ts : List Token} (h : Regular (t :: ts)) :
    Regular ts :=
  ⟨h.beside.of_cons, fun u inside => h.strings u (.tail _ inside)⟩

section
variable {t : Token} (proper : t.Proper)
include proper

theorem head?_written {b : Byte} (first : b ∈ t.written.unspaced.head?)
    (colon : b = ':') : t.kind = .colon ∨ t.kind = .scope := by
  have shape := shape_written proper
  subst colon
  generalize t.kind = k, t.written.unspaced = s at shape first
  cases shape with
  | word _ bytes =>
    obtain rfl := Option.some.inj first
    exact absurd rfl (isWordByte_apart _ (bytes _ (.head _))).2.1
  | string => exact absurd (Option.some.inj first) (by decide)
  | scope => exact .inr rfl
  | mark =>
    obtain rfl := Option.some.inj first
    exact .inl rfl

theorem written_ne_nil : t.written.unspaced ≠ [] := by
  have shape := shape_written proper
  generalize t.kind = k, t.written.unspaced = s at shape
  cases shape <;> simp

/-- How the text of a token ends: as one that opens the scope of names, or
not. -/
theorem getLast?_written (other : t.kind ≠ .scope) :
    ∃ b, t.written.unspaced.getLast? = some b ∧
      opensScope b = startsName t.kind ∧ (b = ':' → t.kind = .colon) := by
  have shape := shape_written proper
  generalize t.kind = k, t.written.unspaced = s at shape other
  cases shape with
  | @word _ c rest kind bytes =>
    have inside := bytes _ (List.getLast_mem (List.cons_ne_nil c rest))
    obtain ⟨-, colon, opens⟩ := isWordByte_apart _ inside
    refine ⟨_, List.getLast?_eq_some_getLast (List.cons_ne_nil c rest), ?_,
      fun same => absurd same colon⟩
    rw [opens, kind]
    split <;> rfl
  | string =>
    exact ⟨'"', by rw [List.getLast?_append]; rfl, rfl,
      fun same => absurd same (by decide)⟩
  | scope => exact absurd rfl other
  | @mark b isMark =>
    exact ⟨b, rfl, (ofByte_marks b).2.1.symm, (ofByte_marks b).1.mpr⟩

theorem colonsApart_written (other : t.kind ≠ .scope)
    (string : t.kind = .string → t.text.unspaced.ColonsApart) :
    t.written.unspaced.ColonsApart := by
  have shape := shape_written proper
  generalize t.kind = k, t.written.unspaced = s at shape other string
  cases shape with
  | word _ bytes =>
    exact Text.colonsApart_of_not_mem
      fun colon => (isWordByte_apart _ (bytes _ colon)).2.1 rfl
  | string =>
    refine List.isChain_append.mpr
      ⟨List.isChain_cons.mpr ⟨?_, string rfl⟩, .singleton _, ?_⟩
    · exact fun b _ colon => absurd colon (by decide)
    · rintro a - b ⟨⟩ -
      decide
  | scope => exact absurd rfl other
  | mark => exact .singleton _

theorem written_scope (scope : t.kind = .scope) :
    t.written.unspaced = [(':' : Byte), (':' : Byte)] := by
  have shape := shape_written proper
  rw [scope] at shape
  generalize t.written.unspaced = s at shape
  generalize long : Kind.scope = k at shape
  cases shape with
  | word kind =>
    subst long
    split at kind <;> cases kind
  | string => cases long
  | scope => rfl
  | @mark b =>
    have short := Kind.isLong_ofByte b
    rw [← long] at short
    cases short

end

theorem compact_cons (t : Token) (ts : List Token) :
    compact (t :: ts) = t.written.unspaced ++ compact ts :=
  List.flatMap_cons

theorem head?_compact {ts : List Token} (proper : ∀ t ∈ ts, t.Proper)
    {b : Byte} (first : b ∈ (compact ts).head?) (colon : b = ':') :
    ∃ t ∈ ts.head?, t.kind = .colon ∨ t.kind = .scope := by
  cases ts with
  | nil => cases first
  | cons t ts =>
    have here := proper t (.head _)
    rw [compact_cons, List.head?_append_of_ne_nil _ (written_ne_nil here)]
      at first
    exact ⟨t, rfl, head?_written here first colon⟩

/-- On texts a `::` is dropped where it is left out on tokens. -/
theorem dropGlobalScopes_compact {previous : Option Token} {atStart : Bool}
    {ts : List Token} (proper : ∀ t ∈ ts, t.Proper) (regular : Regular ts)
    (start :
      ∀ t ∈ ts.head?, t.kind = .scope → atStart = !previous.any continuesName) :
    dropGlobalScopes atStart (compact ts) =
      compact (withoutGlobal previous ts) := by
  induction ts generalizing previous atStart with
  | nil => rfl
  | cons t ts ih =>
    obtain ⟨here, others⟩ := List.forall_mem_cons.mp proper
    have beside := List.isChain_cons.mp regular.beside |>.1
    by_cases scope : t.kind = .scope
    · have text := written_scope here scope
      -- No other `::` follows, so it does not matter what the text is at.
      have next (atStart : Bool) :
          ∀ u ∈ ts.head?,
            u.kind = .scope → atStart = !(some t).any continuesName := by
        intro u first kind
        rcases (beside u first).1 kind with name | name <;>
            simp [continuesName, startsName, scope] at name
      have position := start t rfl scope
      rw [withoutGlobal]
      cases goesOn : previous.any continuesName with
      | true =>
        rw [goesOn] at position
        rw [if_neg (by simp), compact_cons, compact_cons,
          ← ih others regular.tail (next false), text, position]
        exact TypeSpelling.dropGlobalScopes_scope _
      | false =>
        rw [goesOn] at position
        rw [if_pos ⟨scope, rfl⟩, compact_cons,
          ← ih others regular.tail (next true), text, position]
        rfl
    · obtain ⟨b_last, last, opens, colon⟩ := getLast?_written here scope
      have apart :=
        colonsApart_written here scope (regular.strings t (.head _))
      rw [withoutGlobal, if_neg (by simp [scope]), compact_cons, compact_cons]
      rw [TypeSpelling.dropGlobalScopes_append atStart apart,
        ih others regular.tail]
      · intro u first kind
        rw [opensBehind, last, Option.map_some, Option.getD_some, opens,
          Option.any_some]
        rcases (beside u first).1 kind with name | name
        · have : t.kind = .identifier ∨ t.kind = .greater := by
            simpa [continuesName] using name
          rw [name]
          rcases this with kind | kind <;> rw [kind] <;> rfl
        · have : t.kind = .less ∨ t.kind = .comma ∨ t.kind = .lparen := by
            simpa [startsName, or_assoc] using name
          rw [name, continuesName]
          rcases this with kind | kind | kind <;> rw [kind] <;> rfl
      · intro a last' b first colon'
        obtain rfl : b_last = a := Option.some.inj (last.symm.trans last')
        rintro rfl
        obtain ⟨u, behind, kind⟩ := head?_compact others first rfl
        have stands := colon colon'
        rcases kind with kind | kind
        · exact (beside u behind).2 kind stands
        · rcases (beside u behind).1 kind with name | name <;>
              simp [continuesName, startsName, stands] at name

/-! ## Reading tokens off -/

/-- The kinds and texts of tokens, where neighbouring words count as one. -/
def joined : List Token → List (Kind × Text)
  | [] => []
  | t :: ts =>
    match joined ts with
    | [] => [(t.kind, t.text)]
    | (k, s) :: units =>
      if t.kind.isWordLike && k.isWordLike then (t.kind, t.text ++ s) :: units
      else (t.kind, t.text) :: (k, s) :: units

/-- A word, or a mark that is in no word. -/
structure IsUnit (u : Kind × Text) : Prop where
  shape : Shape u.2 u.1 u.2
  noString : u.1 ≠ .string
  noQuote : u.2 ≠ "'"

/-- Where one unit ends and the next begins can be seen from their texts. -/
def Separate (u v : Kind × Text) : Prop :=
  (u.1.isWordLike = true → v.1.isWordLike = false) ∧
    (u.1 = .colon → v.1 ≠ .colon ∧ v.1 ≠ .scope)

/-- The unit ends before the text. -/
structure EndsBefore (u : Kind × Text) (rest : Text) : Prop where
  word : u.1.isWordLike = true → ∀ c ∈ rest.head?, isWordByte c = false
  colon : u.1 = .colon → ∀ c ∈ rest.head?, c ≠ ':'

theorem isWordLike_ofByte (b : Byte) : (Kind.ofByte b).isWordLike = false := by
  have short := Kind.isLong_ofByte b
  cases kind : Kind.ofByte b <;> rw [kind]
    at short <;> first | rfl | cases short

/-- What a unit is: a word of word bytes, the mark `::`, or another single
byte. -/
theorem IsUnit.cases {u : Kind × Text} (h : IsUnit u) :
    (∃ b rest, u = (if b.isDigit then .integer else .identifier, b :: rest) ∧
        ∀ c ∈ b :: rest, isWordByte c = true) ∨
    u = (.scope, [(':' : Byte), (':' : Byte)]) ∨
    ∃ b, u = (Kind.ofByte b, [b]) ∧ isWordByte b = false := by
  obtain ⟨k, s⟩ := u
  obtain ⟨shape, noString, noQuote⟩ := h
  dsimp only at shape noString noQuote
  obtain ⟨value, shape⟩ : ∃ value, Shape value k s := ⟨s, shape⟩
  cases shape with
  | word kind bytes => exact .inl ⟨_, _, by rw [kind], bytes⟩
  | string => exact absurd rfl noString
  | scope => exact .inr (.inl rfl)
  | @mark b isMark =>
    have quote : b ≠ '\'' := fun same => noQuote (by rw [same]; rfl)
    exact .inr (.inr ⟨b, rfl, by simp [isWordByte, isMark.notWord, quote]⟩)

theorem takeWhile_word {s rest : Text} (bytes : ∀ c ∈ s, isWordByte c = true)
    (stop : ∀ c ∈ rest.head?, isWordByte c = false) :
    (s ++ rest).takeWhile isWordByte = s := by
  rw [List.takeWhile_append_of_pos bytes]
  cases rest with
  | nil => simp
  | cons c rest => simp [stop c rfl]

theorem isWordLike_word (b : Byte) :
    (if b.isDigit then Kind.integer else .identifier).isWordLike = true := by
  split <;> rfl

/-- A unit and where it ends can be read off a text. -/
theorem unit_append_inj {u v : Kind × Text} {x y : Text} (hu : IsUnit u)
    (hv : IsUnit v) (endsU : EndsBefore u x) (endsV : EndsBefore v y)
    (same : u.2 ++ x = v.2 ++ y) : u = v ∧ x = y := by
  -- The first byte tells a word from a mark.
  rcases hu.cases with ⟨b, s, rfl, bytes⟩ | rfl | ⟨b, rfl, mark⟩ <;>
    rcases hv.cases with ⟨c, t, rfl, bytes'⟩ | rfl | ⟨c, rfl, mark'⟩
  case inl.inl =>
    have words := congrArg (List.takeWhile isWordByte) same
    rw [takeWhile_word bytes (endsU.word (isWordLike_word b)),
      takeWhile_word bytes' (endsV.word (isWordLike_word c))]
      at words
    obtain ⟨rfl, rfl⟩ := List.cons.inj words
    exact ⟨rfl, List.append_cancel_left same⟩
  case inl.inr.inl =>
    obtain ⟨rfl, -⟩ := List.cons.inj same
    exact absurd (bytes _ (.head _)) (by decide)
  case inl.inr.inr =>
    obtain ⟨rfl, -⟩ := List.cons.inj same
    exact absurd (bytes _ (.head _)) (by simp [mark'])
  case inr.inl.inl =>
    obtain ⟨rfl, -⟩ := List.cons.inj same
    exact absurd (bytes' _ (.head _)) (by decide)
  case inr.inl.inr.inl => exact ⟨rfl, List.append_cancel_left same⟩
  case inr.inl.inr.inr =>
    -- A single colon is not followed by another one.
    obtain ⟨rfl, rest⟩ := List.cons.inj same
    obtain rfl : (':' : Byte) :: x = y := rest
    exact absurd rfl (endsV.colon rfl _ rfl)
  case inr.inr.inl =>
    obtain ⟨rfl, -⟩ := List.cons.inj same
    exact absurd (bytes' _ (.head _)) (by simp [mark])
  case inr.inr.inr.inl =>
    obtain ⟨rfl, rest⟩ := List.cons.inj same
    obtain rfl : x = (':' : Byte) :: y := rest
    exact absurd rfl (endsU.colon rfl _ rfl)
  case inr.inr.inr.inr =>
    obtain ⟨rfl, rest⟩ := List.cons.inj same
    exact ⟨rfl, rest⟩

/-- The text of the next unit begins where the unit ends. -/
theorem endsBefore_of_separate {u v : Kind × Text} (h : IsUnit v)
    (separate : Separate u v) (rest : Text) : EndsBefore u (v.2 ++ rest) := by
  rcases h.cases with ⟨b, s, rfl, bytes⟩ | rfl | ⟨b, rfl, mark⟩
  · refine ⟨fun word => ?_, fun _ c first => ?_⟩
    · have := separate.1 word
      rw [isWordLike_word] at this
      cases this
    · obtain rfl := Option.some.inj first
      exact (isWordByte_apart _ (bytes _ (.head _))).2.1
  · refine ⟨fun _ c first => ?_, fun colon => absurd rfl (separate.2 colon).2⟩
    obtain rfl := Option.some.inj first
    rfl
  · refine ⟨fun _ c first => ?_, fun colon c first => ?_⟩
    · obtain rfl := Option.some.inj first
      exact mark
    · obtain rfl := Option.some.inj first
      exact fun same => (separate.2 colon).1 ((ofByte_marks b).1.mpr same)

theorem endsBefore_units {u : Kind × Text} {us : List (Kind × Text)}
    (units : ∀ v ∈ us, IsUnit v) (separate : (u :: us).IsChain Separate) :
    EndsBefore u (us.flatMap (·.2)) := by
  cases us with
  | nil => exact ⟨fun _ _ => nofun, fun _ _ => nofun⟩
  | cons v us =>
    exact endsBefore_of_separate (units v (.head _))
      (List.isChain_cons_cons.mp separate).1 _

/-- Units can be read off their texts put together. -/
theorem units_injective {us vs : List (Kind × Text)}
    (hu : ∀ u ∈ us, IsUnit u) (separate : us.IsChain Separate)
    (hv : ∀ v ∈ vs, IsUnit v) (separate' : vs.IsChain Separate)
    (same : us.flatMap (·.2) = vs.flatMap (·.2)) : us = vs := by
  have nonempty {u : Kind × Text} (h : IsUnit u) (rest : Text) :
      u.2 ++ rest ≠ [] := by
    rcases h.cases with ⟨b, s, rfl, -⟩ | rfl | ⟨b, rfl, -⟩ <;> simp
  induction us generalizing vs with
  | nil =>
    cases vs with
    | nil => rfl
    | cons v vs => exact absurd same.symm (nonempty (hv v (.head _)) _)
  | cons u us ih =>
    cases vs with
    | nil => exact absurd same (nonempty (hu u (.head _)) _)
    | cons v vs =>
      rw [List.forall_mem_cons] at hu hv
      obtain ⟨rfl, rest⟩ :=
        unit_append_inj hu.1 hv.1 (endsBefore_units hu.2 separate)
          (endsBefore_units hv.2 separate') same
      rw [ih hu.2 separate.of_cons hv.2 separate'.of_cons rest]

/-- The tokens have units for neighbouring words and for the rest. -/
structure Unquoted (ts : List Token) : Prop where
  proper : ∀ t ∈ ts, t.Proper
  noString : ∀ t ∈ ts, t.kind ≠ .string
  noQuote : ∀ t ∈ ts, t.text ≠ "'"

/-- No colon or `::` stands behind a colon. -/
def ColonAlone (t u : Token) : Prop :=
  t.kind = .colon → u.kind ≠ .colon ∧ u.kind ≠ .scope

theorem Unquoted.tail {t : Token} {ts : List Token}
    (h : Unquoted (t :: ts)) : Unquoted ts :=
  ⟨fun u inside => h.proper u (.tail _ inside),
    fun u inside => h.noString u (.tail _ inside),
    fun u inside => h.noQuote u (.tail _ inside)⟩

theorem head?_joined (ts : List Token) :
    (joined ts).head?.map (·.1) = ts.head?.map (·.kind) := by
  cases ts with
  | nil => rfl
  | cons t ts =>
    rw [joined]
    split
    · rfl
    · split <;> rfl

theorem isUnit_of_token {t : Token} (proper : t.Proper)
    (noString : t.kind ≠ .string) (noQuote : t.text ≠ "'") :
    IsUnit (t.kind, t.text) :=
  ⟨shape_text proper noString, noString, noQuote⟩

/-- Two words put together are a word. -/
theorem IsUnit.append {u v : Kind × Text} (hu : IsUnit u) (hv : IsUnit v)
    (word : u.1.isWordLike = true) (word' : v.1.isWordLike = true) :
    IsUnit (u.1, u.2 ++ v.2) := by
  rcases hu.cases with ⟨b, s, rfl, bytes⟩ | rfl | ⟨b, rfl, -⟩
  case inr.inl => cases word
  case inr.inr => simp [isWordLike_ofByte] at word
  rcases hv.cases with ⟨c, t, rfl, bytes'⟩ | rfl | ⟨c, rfl, -⟩
  case inr.inl => cases word'
  case inr.inr => simp [isWordLike_ofByte] at word'
  have all : ∀ d ∈ b :: (s ++ c :: t), isWordByte d = true := by
    rw [← List.cons_append, List.forall_mem_append]
    exact ⟨bytes, bytes'⟩
  refine ⟨.word rfl all, by dsimp only; split <;> simp, fun quote => ?_⟩
  have long :=
    congrArg List.length
      (show b :: (s ++ c :: t) = Text.ofString "'" from quote)
  simp [Text.ofString] at long

theorem compact_joined {ts : List Token} (h : Unquoted ts) :
    compact ts = (joined ts).flatMap (·.2) := by
  induction ts with
  | nil => rfl
  | cons t ts ih =>
    rw [compact_cons,
      unspaced_written (h.proper t (.head _)) (h.noString t (.head _)),
      ih h.tail, joined]
    split
    · rename_i nothing
      rw [nothing]
      rfl
    · rename_i k s units first
      rw [first]
      split <;> simp

theorem units_joined {ts : List Token}
    (h : Unquoted ts) (alone : ts.IsChain ColonAlone) :
    (∀ u ∈ joined ts, IsUnit u) ∧ (joined ts).IsChain Separate := by
  induction ts with
  | nil => exact ⟨by simp [joined], .nil⟩
  | cons t ts ih =>
    have unit :=
      isUnit_of_token (h.proper t (.head _)) (h.noString t (.head _))
        (h.noQuote t (.head _))
    obtain ⟨units, separate⟩ := ih h.tail alone.of_cons
    have kinds := head?_joined ts
    rw [joined]
    split
    · exact ⟨by simpa using unit, .singleton _⟩
    rename_i k s others first
    rw [first, List.forall_mem_cons] at units
    rw [first] at separate kinds
    split
    · rename_i words
      rw [Bool.and_eq_true] at words
      refine ⟨List.forall_mem_cons.mpr
          ⟨unit.append units.1 words.1 words.2, units.2⟩, ?_⟩
      refine List.isChain_cons.mpr ⟨fun v next => ?_, separate.of_cons⟩
      have behind := (List.isChain_cons.mp separate).1 v next
      refine ⟨fun _ => behind.1 words.2, fun colon => ?_⟩
      have word : t.kind.isWordLike = true := words.1
      rw [show t.kind = .colon from colon] at word
      cases word
    · rename_i words
      refine ⟨List.forall_mem_cons.mpr ⟨unit, List.forall_mem_cons.mpr units⟩,
        ?_⟩
      refine List.isChain_cons_cons.mpr
        ⟨⟨fun word => ?_, fun colon => ?_⟩, separate⟩
      · have : t.kind.isWordLike = true := word
        simpa [this] using words
      · obtain ⟨u, next, kind⟩ := Option.map_eq_some_iff.mp kinds.symm
        have behind := (List.isChain_cons.mp alone).1 u next colon
        rwa [kind] at behind

/-! ## Comparing types -/

theorem withoutGlobal_subset (previous : Option Token) (ts : List Token) :
    withoutGlobal previous ts ⊆ ts := by
  fun_induction withoutGlobal previous ts with
  | case1 => simp
  | case2 _ t ts _ ih => exact fun u inside => .tail _ (ih inside)
  | case3 _ t ts _ ih => exact List.cons_subset_cons t ih

/-- Leaving out `::` brings no colons together. -/
theorem colonAlone_withoutGlobal {t : Token}
    {ts : List Token} (h : (t :: ts).IsChain Beside) :
    (t :: withoutGlobal (some t) ts).IsChain ColonAlone := by
  induction ts generalizing t with
  | nil => exact .singleton _
  | cons u ts ih =>
    obtain ⟨beside, later⟩ := List.isChain_cons_cons.mp h
    have scope_apart (scope : u.kind = .scope) : t.kind ≠ .colon := by
      intro colon
      rcases beside.1 scope with name | name <;>
          simp [continuesName, startsName, colon] at name
    rw [withoutGlobal]
    split
    · rename_i dropped
      exact List.isChain_cons.mpr
        ⟨fun _ _ colon => absurd colon (scope_apart dropped.1),
          (ih later).of_cons⟩
    · refine List.isChain_cons_cons.mpr
        ⟨fun colon => ⟨fun kind => beside.2 kind colon, fun kind => ?_⟩,
          ih later⟩
      exact scope_apart kind colon

theorem units_withoutGlobal {ts : List Token}
    (h : Unquoted ts) (regular : Regular ts) :
    Unquoted (withoutGlobal none ts) ∧
    (withoutGlobal none ts).IsChain ColonAlone := by
  have inside := withoutGlobal_subset none ts
  refine ⟨⟨fun t found => h.proper t (inside found),
      fun t found => h.noString t (inside found),
    fun t found => h.noQuote t (inside found)⟩, ?_⟩
  cases ts with
  | nil => exact .nil
  | cons t ts =>
    have chain := colonAlone_withoutGlobal regular.beside
    rw [withoutGlobal]
    split
    · exact chain.of_cons
    · exact chain

/-- Without strings and quote marks, spellings that agree without blanks have
the same tokens, up to words that stand side by side. -/
theorem compact_eq_iff_joined {ts us : List Token} (ht : Unquoted ts)
    (hu : Unquoted us) (regular : Regular ts) (regular' : Regular us) :
    compact (withoutGlobal none ts) = compact (withoutGlobal none us) ↔
      joined (withoutGlobal none ts) = joined (withoutGlobal none us) := by
  obtain ⟨unquoted, alone⟩ := units_withoutGlobal ht regular
  obtain ⟨unquoted', alone'⟩ := units_withoutGlobal hu regular'
  rw [compact_joined unquoted, compact_joined unquoted']
  refine ⟨fun same => ?_, fun same => by rw [same]⟩
  obtain ⟨units, separate⟩ := units_joined unquoted alone
  obtain ⟨units', separate'⟩ := units_joined unquoted' alone'
  exact units_injective units separate units' separate' same

/-- What spellings of one type have in common, said of tokens. -/
theorem key_spell {ts : List Token}
    (proper : ∀ t ∈ ts, t.Proper) (regular : Regular ts) :
    TypeSpelling.key (spell ts) = compact (withoutGlobal none ts) := by
  rw [TypeSpelling.key_eq, unspaced_spell]
  exact dropGlobalScopes_compact proper regular fun _ _ _ => rfl

end Token
end MirrorAdapter
