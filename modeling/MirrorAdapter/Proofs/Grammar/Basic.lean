import Mathlib.Algebra.Ring.Int.Defs
import MirrorAdapter.Token.Basic

/-!
# The grammar of mirror files

What a well-formed file is, said of token lists alone: no reading step, no
place where reading goes on, no report. Every nonterminal is a predicate on
the stretch of tokens it derives; repetition and choice are constructors.
`Items` derives whole files.

Two notions of depth occur, as in the language itself. Arguments of attributes
need parentheses that match and nothing else. Template parameters and fields
are measured by one running count over all four bracket shapes, which may fall
below zero; a mark that ends them counts only where that count is zero.
-/
namespace MirrorAdapter
namespace Grammar

/-! ## Brackets -/

/-- Every bracket of the given shapes is closed by one of its own shape, in
the order of nesting; all other tokens stand anywhere. -/
inductive Nested (shapes : List (Token.Kind × Token.Kind)) : List Token → Prop
  | nil : Nested shapes []
  | token {t : Token} {rest : List Token} :
      (∀ shape ∈ shapes, t.kind ≠ shape.1 ∧ t.kind ≠ shape.2) →
      Nested shapes rest → Nested shapes (t :: rest)
  | group {l r : Token} {inside rest : List Token} :
      (l.kind, r.kind) ∈ shapes → Nested shapes inside → Nested shapes rest →
        Nested shapes (l :: inside ++ r :: rest)

/-- The shape that counts in arguments of attributes. -/
def parentheses : List (Token.Kind × Token.Kind) := [(.lparen, .rparen)]

/-- All four shapes. -/
def allShapes : List (Token.Kind × Token.Kind) :=
  [(.lparen, .rparen), (.lbracket, .rbracket), (.lbrace, .rbrace),
    (.less, .greater)]

/-- Stretches of the given sort with a closer after each but the last: what is
left to read inside `depth` open brackets that such a closer ends. -/
inductive Closing (sort : List Token → Prop) (closer : Token.Kind) :
    Nat → List Token → Prop
  | last {tokens : List Token} : sort tokens → Closing sort closer 0 tokens
  | close {depth : Nat} {inside rest : List Token} {r : Token} :
      sort inside → r.kind = closer → Closing sort closer depth rest →
        Closing sort closer (depth + 1) (inside ++ r :: rest)

theorem Closing.succ {sort : List Token → Prop}
    {closer : Token.Kind} {depth : Nat} {tokens : List Token}
    (h : Closing sort closer (depth + 1) tokens) :
    ∃ inside r rest, tokens = inside ++ r :: rest ∧ sort inside ∧
      r.kind = closer ∧ Closing sort closer depth rest := by
  cases h with
  | close good r rest => exact ⟨_, _, _, rfl, good, r, rest⟩

/-- What may stand before the first stretch may be put before the whole. -/
theorem Closing.prepend {sort : List Token → Prop} {closer : Token.Kind}
    {depth : Nat} {tokens : List Token} (h : Closing sort closer depth tokens)
    (first : List Token) (extend : ∀ rest, sort rest → sort (first ++ rest)) :
    Closing sort closer depth (first ++ tokens) := by
  cases h with
  | last good => exact .last (extend _ good)
  | close good r rest => simpa using Closing.close (extend _ good) r rest

/-- Openers minus closers, whatever their shapes. -/
def count (tokens : List Token) : Int := (tokens.map (·.kind.nesting)).sum

@[simp] theorem count_nil : count [] = 0 := rfl

@[simp] theorem count_cons (t : Token) (tokens : List Token) :
    count (t :: tokens) = t.kind.nesting + count tokens := by
  simp [count]

@[simp] theorem count_append (a b : List Token) :
    count (a ++ b) = count a + count b := by
  simp [count]

/-- No token of the given kinds stands where the running count is zero. -/
def NoneOutside (marks : List Token.Kind) (tokens : List Token) : Prop :=
  ∀ before t after,
    tokens = before ++ t :: after → count before = 0 → t.kind ∉ marks

theorem noneOutside_nil (marks : List Token.Kind) : NoneOutside marks [] := by
  intro before t after whole
  simp at whole

/-- One more token at the end is no mark, or stands inside brackets. -/
theorem NoneOutside.snoc {marks : List Token.Kind}
    {tokens : List Token} (h : NoneOutside marks tokens)
    {t : Token} (ht : count tokens = 0 → t.kind ∉ marks) :
    NoneOutside marks (tokens ++ [t]) := by
  intro before u after whole
  rcases List.eq_nil_or_concat after with rfl | ⟨after, last, rfl⟩
  · obtain ⟨rfl, same⟩ := List.append_inj' whole rfl
    cases same
    exact ht
  · rw [List.concat_eq_append, ← List.cons_append, ← List.append_assoc]
      at whole
    obtain ⟨rfl, -⟩ := List.append_inj' whole rfl
    exact h before u after rfl

/-! ## Attributes -/

/-- The further components of a name: `(:: Identifier)*`. -/
inductive PathTail : List Token → Prop
  | nil : PathTail []
  | cons {colons name : Token} {rest : List Token} :
      colons.kind = .scope → name.kind = .identifier → PathTail rest →
      PathTail (colons :: name :: rest)

/-- `[( tokens with matching parentheses )]` -/
inductive Arguments : List Token → Prop
  | absent : Arguments []
  | list {l r : Token} {inside : List Token} :
      l.kind = .lparen → Nested parentheses inside → r.kind = .rparen →
      Arguments (l :: inside ++ [r])

/-- `Identifier (:: Identifier)* [( … )]` -/
inductive Attribute : List Token → Prop
  | mk {name : Token} {path arguments : List Token} :
      name.kind = .identifier → PathTail path → Arguments arguments →
      Attribute (name :: path ++ arguments)

/-- `[attribute (, attribute)* [,]]` -/
inductive AttributeList : List Token → Prop
  | nil : AttributeList []
  | last {first : List Token} : Attribute first → AttributeList first
  | cons {first rest : List Token} {comma : Token} :
      Attribute first → comma.kind = .comma → AttributeList rest →
      AttributeList (first ++ comma :: rest)

/-- `([ [ attribute list ] ])*` -/
inductive Attributes : List Token → Prop
  | nil : Attributes []
  | cons {a b c d : Token} {inside rest : List Token} :
      a.kind = .lbracket → b.kind = .lbracket → AttributeList inside →
      c.kind = .rbracket → d.kind = .rbracket → Attributes rest →
      Attributes (a :: b :: inside ++ c :: d :: rest)

/-- Whether two square brackets open here, as they do before every
attribute. -/
def opensAttributes : List Token → Bool
  | a :: b :: _ => a.kind == .lbracket && b.kind == .lbracket
  | _ => false

/-! ## Template parameters -/

/-- A parameter: at least two tokens of which the last is its name, without a
default, and without a mark that ends it outside all brackets. -/
structure Param (tokens : List Token) : Prop where
  two : 2 ≤ tokens.length
  noDefault : ∀ t ∈ tokens, t.kind ≠ .equal
  named : ∃ t, tokens.getLast? = some t ∧ t.kind = .identifier
  unsplit : NoneOutside [.comma, .greater] tokens
  closed : count tokens = 0

/-- `param (, param)*` -/
inductive Params : List Token → Prop
  | last {param : List Token} : Param param → Params param
  | cons {param rest : List Token} {comma : Token} :
      Param param → comma.kind = .comma → Params rest →
      Params (param ++ comma :: rest)

/-- Parameters, and the tokens of each of them. -/
inductive ParamsOf : List Token → List (List Token) → Prop
  | last {param : List Token} : Param param → ParamsOf param [param]
  | cons {param rest : List Token} {comma : Token}
      {params : List (List Token)} :
      Param param → comma.kind = .comma → ParamsOf rest params →
      ParamsOf (param ++ comma :: rest) (param :: params)

theorem ParamsOf.params {tokens : List Token} {params : List (List Token)}
    (h : ParamsOf tokens params) : Params tokens := by
  induction h with
  | last param => exact .last param
  | cons param comma _ ih => exact .cons param comma ih

/-- `template < param (, param)* >` -/
inductive TemplateClause : List Token → Prop
  | mk {word l r : Token} {params : List Token} :
      word.isWord "template" → l.kind = .less → Params params →
      r.kind = .greater → TemplateClause (word :: l :: params ++ [r])

/-- A template clause or nothing, and the tokens of each parameter. -/
inductive ClauseOf : List Token → List (List Token) → Prop
  | absent : ClauseOf [] []
  | clause {word l r : Token} {inside : List Token}
      {params : List (List Token)} :
      word.isWord "template" → l.kind = .less → ParamsOf inside params →
      r.kind = .greater → ClauseOf (word :: l :: inside ++ [r]) params

theorem ClauseOf.clause_or_nil {tokens : List Token}
    {params : List (List Token)} (h : ClauseOf tokens params) :
    tokens = [] ∨ TemplateClause tokens := by
  cases h with
  | absent => exact .inl rfl
  | clause word opens inside closes =>
    exact .inr (.mk word opens inside.params closes)

/-- What stands before the keyword of a definition: attributes, or attributes,
a template clause and attributes. -/
inductive Prelude : List Token → Prop
  | plain {attributes : List Token} : Attributes attributes → Prelude attributes
  | template {leading clause trailing : List Token} :
      Attributes leading → TemplateClause clause → Attributes trailing →
      Prelude (leading ++ clause ++ trailing)

/-! ## Members -/

/-- Whether an access label `public:`, `private:` or `protected:` starts
here. -/
def startsLabel : List Token → Bool
  | a :: b :: _ =>
    (a.isWord "public" || a.isWord "private" || a.isWord "protected") &&
      b.kind == .colon
  | _ => false

/-- Whether one of the words starts here that no field starts with. -/
def startsOtherMember : List Token → Bool
  | a :: _ => a.isWord "static" || a.isWord "using" || a.isWord "typedef"
  | [] => false

/-- The tokens of a field: type and name, with no attribute in front. -/
structure FieldTokens (tokens : List Token) : Prop where
  two : 2 ≤ tokens.length
  named : ∃ t, tokens.getLast? = some t ∧ t.kind = .identifier
  noAttributes : opensAttributes tokens = false
  noOther : startsOtherMember tokens = false
  unended : NoneOutside [.semicolon, .rbrace, .equal, .lparen] tokens
  closed : count tokens = 0

/-- `public :` or a field with its attributes; the latter does not start with
an access label. -/
inductive Member : List Token → Prop
  | label {word colon : Token} :
      word.isWord "public" → colon.kind = .colon → Member [word, colon]
  | field {attributes tokens : List Token} {semicolon : Token} :
      Attributes attributes → FieldTokens tokens →
      startsLabel (attributes ++ tokens) = false → semicolon.kind = .semicolon →
      Member (attributes ++ tokens ++ [semicolon])

/-- `member*` -/
inductive Members : List Token → Prop
  | nil : Members []
  | cons {member rest : List Token} :
      Member member → Members rest → Members (member ++ rest)

/-- Members, and the tokens of each field among them without its attributes
and its semicolon. -/
inductive FieldsOf : List Token → List (List Token) → Prop
  | nil : FieldsOf [] []
  | label {word colon : Token} {rest : List Token}
      {fields : List (List Token)} :
      word.isWord "public" → colon.kind = .colon → FieldsOf rest fields →
      FieldsOf (word :: colon :: rest) fields
  | field {attributes tokens rest : List Token}
      {semicolon : Token} {fields : List (List Token)} :
      Attributes attributes → FieldTokens tokens →
      startsLabel (attributes ++ tokens) = false →
      semicolon.kind = .semicolon → FieldsOf rest fields →
      FieldsOf (attributes ++ tokens ++ [semicolon] ++ rest) (tokens :: fields)

theorem FieldsOf.members {tokens : List Token} {fields : List (List Token)}
    (h : FieldsOf tokens fields) : Members tokens := by
  induction h with
  | nil => exact .nil
  | label word colon _ ih => exact .cons (.label word colon) ih
  | field attributes tokens noLabel semicolon _ ih =>
    exact .cons (.field attributes tokens noLabel semicolon) ih

/-! ## Files -/

/-- `struct` or `class`. -/
def isKeyword (t : Token) : Bool := t.isWord "struct" || t.isWord "class"

/-- A definition up to its name. -/
inductive Head : List Token → Token → Prop
  | mk {before attributes : List Token} {keyword name : Token} :
      Prelude before → isKeyword keyword → Attributes attributes →
      name.kind = .identifier → Head (before ++ keyword :: attributes) name

/-- A definition up to its name, and the tokens of each of its template
parameters. -/
inductive HeadOf : List Token → Token → List (List Token) → Prop
  | mk {leading clause trailing attributes : List Token}
      {keyword name : Token} {params : List (List Token)} :
      Attributes leading → ClauseOf clause params → Attributes trailing →
      isKeyword keyword → Attributes attributes → name.kind = .identifier →
      HeadOf (leading ++ clause ++ trailing ++ keyword :: attributes)
        name params

/-- A definition without the semicolon at its end. -/
inductive Unterminated : List Token → Prop
  | mk {head members : List Token} {name l r : Token} :
      Head head name → l.kind = .lbrace → Members members → r.kind = .rbrace →
        Unterminated (head ++ name :: l :: members ++ [r])

/-- The definition of a mirror type. -/
inductive Mirror : List Token → Prop
  | mk {definition : List Token} {semicolon : Token} :
      Unterminated definition → semicolon.kind = .semicolon →
      Mirror (definition ++ [semicolon])

/-- The target of an include line, on the given line. -/
inductive Target (line : UInt32) : List Token → Prop
  | string {t : Token} : t.kind = .string → t.line = line → Target line [t]
  | angle {l r : Token} {inside : List Token} :
      l.kind = .less → l.line = line →
      (∀ t ∈ inside, t.line = line ∧ t.kind ≠ .greater) →
      r.kind = .greater → r.line = line → Target line (l :: inside ++ [r])

/-- `# include` and a target on the line of the word. -/
inductive Include : List Token → Prop
  | mk {hash word : Token} {target : List Token} :
      hash.kind = .hash → word.isWord "include" → Target word.line target →
      Include (hash :: word :: target)

/-- `namespace Identifier (:: Identifier)* {` -/
inductive Opening : List Token → Prop
  | mk {word name l : Token} {path : List Token} :
      word.isWord "namespace" → name.kind = .identifier → PathTail path →
      l.kind = .lbrace → Opening (word :: name :: path ++ [l])

mutual

/-- One item of a file. -/
inductive Item : List Token → Prop
  | semicolon {t : Token} : t.kind = .semicolon → Item [t]
  | include {tokens : List Token} : Include tokens → Item tokens
  | mirror {tokens : List Token} : Mirror tokens → Item tokens
  | block {opening inside : List Token} {r : Token} :
      Opening opening → Items inside → r.kind = .rbrace →
      Item (opening ++ inside ++ [r])

/-- The items of a file, or of a namespace block. -/
inductive Items : List Token → Prop
  | nil : Items []
  | cons {item rest : List Token} :
      Item item → Items rest → Items (item ++ rest)

end

theorem Attributes.append {a b : List Token} (ha : Attributes a)
    (hb : Attributes b) : Attributes (a ++ b) := by
  induction ha with
  | nil => exact hb
  | cons h₁ h₂ h₃ h₄ h₅ _ ih => simpa using Attributes.cons h₁ h₂ h₃ h₄ h₅ ih

theorem HeadOf.head {front : List Token} {name : Token}
    {params : List (List Token)} (h : HeadOf front name params) :
    Head front name := by
  cases h with
  | mk leading clause trailing word attributes named =>
    refine .mk ?_ word attributes named
    -- Attributes on both sides of a clause that is missing are one list of
    -- attributes.
    rcases clause.clause_or_nil with rfl | clause
    · simpa using Prelude.plain (leading.append trailing)
    · exact .template leading clause trailing

end Grammar
end MirrorAdapter
