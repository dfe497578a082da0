import MirrorAdapter.Decl.Parser

/-!
# Moving tokens to other places

Two texts that differ in blanks, comments and line breaks have the same tokens
at other places. So what does not depend on places is what commutes with
moving every token: here that is said of tokens, of what is made of them, and
of the steps that all readers are built from.
-/
namespace MirrorAdapter

section
variable (g : Location → Location)

def Token.relocate (t : Token) : Token := { t with location := g t.location }

def Reference.relocate (r : Reference) : Reference :=
  { r with location := g r.location }

def Diagnostic.relocate (d : Diagnostic) : Diagnostic :=
  { d with location := g d.location }

namespace Decl

def Attribute.relocate (a : Attribute) : Attribute :=
  { a with
    location := g a.location,
    arguments := a.arguments.map (·.map (Token.relocate g)) }

def LocatedParam.relocate (p : LocatedParam) : LocatedParam :=
  { p with location := g p.location }

def Field.relocate (f : Field) : Field :=
  { f with
    location := g f.location
    type := f.type.relocate g
    attributes := f.attributes.map (Attribute.relocate g) }

def Mirror.relocate (m : Mirror) : Mirror :=
  { m with
    location := g m.location
    templateParams := m.templateParams.map (LocatedParam.relocate g)
    attributes := m.attributes.map (Attribute.relocate g)
    fields := m.fields.map (Field.relocate g) }

def Include.relocate (line : Include) : Include :=
  { line with location := g line.location }

end Decl

namespace Token

variable (t : Token) (tokens : List Token)

@[simp] theorem kind_relocate : (t.relocate g).kind = t.kind := rfl

@[simp] theorem text_relocate : (t.relocate g).text = t.text := rfl

@[simp] theorem location_relocate :
    (t.relocate g).location = g t.location := rfl

@[simp] theorem isWord_relocate (word : Text) :
    (t.relocate g).isWord word = t.isWord word := rfl

@[simp] theorem startsWith_relocate (kind : Kind) :
    startsWith kind (tokens.map (relocate g)) = startsWith kind tokens := by
  cases tokens <;> rfl

@[simp] theorem spell_relocate :
    spell (tokens.map (relocate g)) = spell tokens := by
  fun_induction spell tokens with
  | case1 => rfl
  | case2 => rfl
  | case3 t u rest ih =>
    rw [List.map_cons] at ih
    rw [List.map_cons, List.map_cons, spell, ih]
    rfl

@[simp] theorem balanced_relocate :
    balanced (tokens.map (relocate g)) = balanced tokens := by
  suffices h :
      ∀ depth, balancedFrom depth (tokens.map (relocate g)) =
          balancedFrom depth tokens from h 0
  induction tokens with
  | nil => exact fun _ => rfl
  | cons t ts ih =>
    intro depth
    rw [List.map_cons, balancedFrom.eq_def, balancedFrom.eq_def depth (t :: ts)]
    simp only [kind_relocate, ih]

/-- Scanning under another file name moves the tokens. -/
theorem scan_relocate (file other text : Text) :
    scan other text =
      (scan file text).map (relocate fun l => ⟨other, l.position⟩) := by
  suffices h :
      ∀ p pieces, locate other p pieces = (locate file p pieces).map
            (relocate fun l => ⟨other, l.position⟩) from h _ _
  intro p pieces
  induction pieces generalizing p with
  | nil => rfl
  | cons piece pieces ih =>
    rw [locate, locate]
    split
    · exact ih _
    · rw [ih, List.map_cons]
      rfl

theorem scanBody_relocate (file other text : Text) :
    scanBody other text =
      (scanBody file text).map (relocate fun l => ⟨other, l.position⟩) := by
  rw [scanBody, scanBody, scan_relocate file, List.map_dropLast]

/-- Tokens at one place each are told apart by their kinds and texts. -/
theorem map_relocate_eq {tokens tokens' : List Token} (place : Location)
    (h : tokens.map (fun t => (t.kind, t.text)) =
        tokens'.map fun t => (t.kind, t.text)) :
    tokens.map (relocate fun _ => place) =
      tokens'.map (relocate fun _ => place) := by
  have bare (ts : List Token) :
      ts.map (relocate fun _ => place) =
        (ts.map fun t => (t.kind, t.text)).map
          fun (kind, text) => ⟨kind, text, place⟩ := by
    rw [List.map_map]
    rfl
  rw [bare, bare, h]

end Token

/-- What was read, or what went wrong, for tokens at other places. -/
def moved {ε α : Type} (moveError : ε → ε) (move : α → α) :
    Except ε α → Except ε α
  | .ok value => .ok (move value)
  | .error error => .error (moveError error)

/-! ## Reading steps -/

namespace Decl

namespace Parsed

variable {α α' β β' : Type}

/-- The same outcome for tokens at other places, where values are moved by a
function of their own. -/
def relocate (move : α → α') (p : Parsed α) : Parsed α' :=
  ⟨p.value.map move, p.rest.map (Token.relocate g),
    p.log.map (Diagnostic.relocate g)⟩

variable (move : α → α')

@[simp] theorem relocate_done (value : α) (rest : List Token) :
    (done value rest).relocate g move =
      done (move value) (rest.map (Token.relocate g)) :=
  rfl

theorem relocate_andThen {first : Parsed α} {second : α → List Token → Parsed β}
    {second' : α' → List Token → Parsed β'} {move' : β → β'}
    (h : ∀ value, first.value = some value →
        second' (move value) (first.rest.map (Token.relocate g)) =
          (second value first.rest).relocate g move') :
    (first.relocate g move).andThen second' =
      (first.andThen second).relocate g move' := by
  obtain ⟨_ | value, rest, log⟩ := first
  · rfl
  · simp only [relocate, andThen, Option.map_some, h value rfl, List.map_append]

end Parsed

variable (stop : Token) (tokens : List Token)

@[simp] theorem place_relocate :
    place (stop.relocate g) (tokens.map (Token.relocate g)) =
      g (place stop tokens) := by
  cases tokens <;> rfl

theorem blame_relocate {α α' : Type} (move : α → α') (fault : Fault) :
    blame (stop.relocate g) fault (tokens.map (Token.relocate g)) =
      (blame stop fault tokens).relocate g move := by
  rw [blame, place_relocate]
  rfl

theorem expect_relocate (kind : Token.Kind) (fault : Fault) :
    expect (stop.relocate g) kind fault (tokens.map (Token.relocate g)) =
      (expect stop kind fault tokens).relocate g (Token.relocate g) := by
  cases tokens with
  | nil => exact blame_relocate g stop [] _ fault
  | cons t ts =>
    rw [List.map_cons, expect, expect, Token.kind_relocate]
    split
    · rfl
    · exact blame_relocate g stop (t :: ts) _ fault

theorem skipStatement_relocate (depth : Nat) :
    skipStatement depth (tokens.map (Token.relocate g)) =
      (skipStatement depth tokens).map (Token.relocate g) := by
  have semicolon (ts : List Token) :
      skipSemicolon (ts.map (Token.relocate g)) =
        (skipSemicolon ts).map (Token.relocate g) := by
    simp only [skipSemicolon, Token.startsWith_relocate]
    split
    · rw [List.map_tail]
    · rfl
  induction tokens generalizing depth with
  | nil => rfl
  | cons t ts ih =>
    rw [List.map_cons, skipStatement.eq_def,
      skipStatement.eq_def depth (t :: ts)]
    dsimp only
    rw [Token.kind_relocate]
    split
    · exact ih _
    · split
      · rfl
      · exact semicolon ts
      · exact ih _
    · split
      · rfl
      · exact ih _
    · exact ih _

end Decl

end
end MirrorAdapter
