import MirrorAdapter.Adapter.Member
import MirrorAdapter.Directive.Item
import MirrorAdapter.Proofs.Checks.Tables
import MirrorAdapter.Proofs.Recovery.Origin
import MirrorAdapter.Support.Standard

/-!
# Declarators and fields

Each statement of a body that declares data becomes one field, and each field
one member of all generated types. A statement is not looked at between its
ends, though: in `int a, b;` the type of the field `b` is spelled by all that
stands before it. So the declarators of a body have fields of their own iff no
comma stands outside all brackets of a type.
-/
namespace MirrorAdapter

open Grammar (count NoneOutside FieldsOf)

/-! ## Cutting at commas -/

namespace Directive

theorem length_splitCommas_pos (depth : Int) (tokens : List Token) :
    0 < (splitCommas depth tokens).length :=
  List.length_pos_of_ne_nil (splitCommas_ne_nil depth tokens)

/-- A token that cuts nothing off joins the first part. -/
theorem length_splitCommas_cons {depth : Int} {t : Token} (ts : List Token)
    (h : ¬(depth = 0 ∧ t.kind = .comma)) :
    (splitCommas depth (t :: ts)).length =
      (splitCommas (depth + t.kind.nesting) ts).length := by
  rw [splitCommas, if_neg h]
  split
  · exact absurd ‹_› (splitCommas_ne_nil _ ts)
  · rename_i parts
    rw [parts]
    rfl

/-- There is one part iff no comma stands outside all brackets. -/
theorem length_splitCommas_eq_one_iff {depth : Int} {tokens : List Token} :
    (splitCommas depth tokens).length = 1 ↔
      ∀ before t after, tokens = before ++ t :: after →
        depth + count before = 0 → t.kind ≠ .comma := by
  induction tokens generalizing depth with
  | nil => simp [splitCommas]
  | cons t ts ih =>
    by_cases cut : depth = 0 ∧ t.kind = .comma
    · have more := length_splitCommas_pos 0 ts
      have parts : (splitCommas depth (t :: ts)).length ≠ 1 := by
        rw [splitCommas, if_pos cut, List.length_cons]
        omega
      exact iff_of_false parts
        fun none_cuts => none_cuts [] t ts rfl (by simp [cut.1]) cut.2
    · rw [length_splitCommas_cons ts cut, ih]
      constructor
      · intro later before u after whole outside
        cases before with
        | nil =>
          obtain ⟨rfl, rfl⟩ := List.cons.inj whole
          exact fun comma => cut ⟨by simpa using outside, comma⟩
        | cons first before =>
          obtain ⟨rfl, rest⟩ := List.cons.inj whole
          exact later before u after rest
            (by rwa [Int.add_assoc, ← Grammar.count_cons])
      · intro all before u after rest outside
        have outside' : depth + count (t :: before) = 0 := by
          rwa [Grammar.count_cons, ← Int.add_assoc]
        exact all (t :: before) u after (by rw [rest]; rfl) outside'

end Directive

namespace Grammar

theorem NoneOutside.of_append {marks : List Token.Kind} {a b : List Token}
    (h : NoneOutside marks (a ++ b)) : NoneOutside marks a :=
  fun before t after whole => h before t (after ++ b) (by simp [whole])

/-- The declarators of a statement such as `int a, b`; the first one has the
type with it. -/
def declarators (tokens : List Token) : List (List Token) :=
  Directive.splitCommas 0 tokens

/-- A field has one declarator iff its type has no comma outside all
brackets. -/
theorem FieldTokens.length_declarators_eq_one_iff {tokens : List Token}
    (h : FieldTokens tokens) :
    (declarators tokens).length = 1 ↔ NoneOutside [.comma] tokens.dropLast := by
  obtain ⟨name, last, kind⟩ := h.named
  obtain ⟨type, rfl⟩ := List.getLast?_eq_some_iff.mp last
  rw [declarators, Directive.length_splitCommas_eq_one_iff,
    List.dropLast_concat]
  simp only [Int.zero_add, ne_eq]
  constructor
  · intro none_cuts
    exact NoneOutside.of_append fun before t after whole outside => by
      simpa using none_cuts before t after whole outside
  · intro none_inside before t after whole outside
    have name_no_comma : count type = 0 → name.kind ∉ [Token.Kind.comma] := by
      simp [kind]
    simpa using none_inside.snoc name_no_comma before t after whole outside

/-- All statements among members declare fields. -/
theorem FieldsOf.fieldTokens {members : List Token}
    {statements : List (List Token)} (h : FieldsOf members statements) :
    ∀ s ∈ statements, FieldTokens s := by
  induction h with
  | nil => simp
  | label _ _ _ ih => exact ih
  | field _ tokens _ _ _ ih => exact List.forall_mem_cons.mpr ⟨tokens, ih⟩

theorem length_le_flatMap_declarators (statements : List (List Token)) :
    statements.length ≤ (statements.flatMap declarators).length := by
  induction statements with
  | nil => simp
  | cons s statements ih =>
    have first : 0 < (declarators s).length :=
      Directive.length_splitCommas_pos 0 s
    rw [List.flatMap_cons, List.length_append, List.length_cons]
    omega

/-- There are as many declarators as statements iff each statement has one. -/
theorem length_eq_flatMap_declarators_iff (statements : List (List Token)) :
    statements.length = (statements.flatMap declarators).length ↔
      ∀ s ∈ statements, (declarators s).length = 1 := by
  induction statements with
  | nil => simp
  | cons s statements ih =>
    have first : 0 < (declarators s).length :=
      Directive.length_splitCommas_pos 0 s
    have rest := length_le_flatMap_declarators statements
    rw [List.forall_mem_cons, ← ih, List.flatMap_cons, List.length_append,
      List.length_cons]
    omega

end Grammar

namespace Decl

/-- The tokens define the mirror type in a body whose data statements are the
given ones. -/
inductive Defines (m : Mirror) (statements : List (List Token)) :
    List Token → Prop
  | mk {front members : List Token} {name l r semicolon : Token} :
      Grammar.Head front name → l.kind = .lbrace → FieldsOf members statements →
      r.kind = .rbrace → semicolon.kind = .semicolon →
      m.name = name.text → m.location = name.location →
      Defines m statements (front ++ name :: l :: members ++ [r, semicolon])

/-- A mirror type of a file is defined there by a body in which each statement
declares one of its fields. -/
theorem defines_of_mem_mirrors {path : Text} {tokens : List Token}
    {m : Mirror} (h : m ∈ (readTokens path tokens).file.mirrors) :
    ∃ definition statements,
      definition <:+: beforeEnd tokens ∧ Defines m statements definition ∧
      List.Forall₂ Declares statements m.fields := by
  obtain ⟨content, blocks, left, run, found⟩ := exists_run_of_mem_mirrors h
  obtain ⟨-, front, name, l, members, r, semicolon, statements, whole,
        head, opens, inside, closes, ends, named, placed, -, declared⟩ :=
    definition_of_readMirror _ found
  refine ⟨_, statements, ?_, .mk head opens inside closes ends named placed,
    declared⟩
  obtain ⟨passed, split⟩ := run.suffix
  generalize (readMirror _ _ left).rest = rest at whole
  exact ⟨passed, rest, by rw [← split, whole]; simp⟩

/-- Each data statement in the body of a mirror type becomes one field, and
each field one member of the generated types. All declarators have fields of
their own iff no type has a comma outside all brackets. -/
theorem fields_of_mirror [Support] (path : Text) (tokens : List Token)
    (m : Mirror) (h : m ∈ (readTokens path tokens).file.mirrors) :
    (∃ definition statements,
        definition <:+: beforeEnd tokens ∧ Defines m statements definition ∧
        List.Forall₂ Declares statements m.fields ∧
        (m.fields.length = (statements.flatMap Grammar.declarators).length ↔
          ∀ s ∈ statements, NoneOutside [.comma] s.dropLast)) ∧
    ∀ file index t, (compileMirror file m index).table = some t →
      (Adapter.members t).map (·.name) = m.fields.map (·.name) := by
  constructor
  · obtain ⟨definition, statements, here, defines, declared⟩ :=
      defines_of_mem_mirrors h
    refine ⟨definition, statements, here, defines, declared, ?_⟩
    obtain ⟨-, -, inside, -, -, -, -⟩ := defines
    rw [← declared.length_eq, Grammar.length_eq_flatMap_declarators_iff]
    exact forall₂_congr fun s statement =>
        (inside.fieldTokens s statement).length_declarators_eq_one_iff
  · intro file index t table
    rw [Mapping.names_entries (describes_of_table table).entries,
      Adapter.members, List.map_map]
    rfl

/-- A body whose one statement has two declarators. -/
def twoDeclarators : List Token :=
  Token.scan "in.mirror"
    "struct [[archive_with(from(::r::M))]] M \x7b int a, b; \x7d;"

section
open Support.Standard

theorem fields_of_mirror_twoDeclarators :
    ∃ m ∈ (readTokens "in.mirror" twoDeclarators).file.mirrors,
      ∃ definition statements, definition <:+: beforeEnd twoDeclarators ∧
        Defines m statements definition ∧
        List.Forall₂ Declares statements m.fields := by
  obtain ⟨m, returned⟩ :
      ∃ m, m ∈ (readTokens "in.mirror" twoDeclarators).file.mirrors :=
    List.exists_mem_of_ne_nil _ (by decide +kernel)
  obtain ⟨⟨definition, statements, here, defines, declared, -⟩, -⟩ :=
    fields_of_mirror "in.mirror" twoDeclarators m returned
  exact ⟨m, returned, definition, statements, here, defines, declared⟩

end

/-- That statement, `int a, b`. -/
def twoInOne : List Token := (twoDeclarators.drop 17).take 4

section
open Support.Standard

/-- The first declarator is part of the type of the second, which alone is a
member of the generated types, and nothing is reported. -/
theorem twoDeclarators_merged :
    ¬NoneOutside [.comma] twoInOne.dropLast ∧
    (Grammar.declarators twoInOne).map Token.spell =
      [Text.ofString "int a", "b"] ∧
    (readTokens "in.mirror" twoDeclarators).log = [] ∧
    ∃ m ∈ (readTokens "in.mirror" twoDeclarators).file.mirrors,
      m.fields.length = 1 ∧ (∀ f ∈ m.fields, Declares twoInOne f) ∧
          let result :=
            compileMirror (readTokens "in.mirror" twoDeclarators).file m {}
          result.log = [] ∧ ∃ t ∈ result.table,
            (Adapter.members t).map (·.name) = [Text.ofString "b"] := by
  refine ⟨fun none_outside => ?_, by decide +kernel⟩
  have comma : (twoInOne.getD 2 default).kind ∉ [Token.Kind.comma] :=
    none_outside (twoInOne.take 2) _ [] (by decide +kernel) (by decide +kernel)
  exact comma (by decide +kernel)

end

end Decl
end MirrorAdapter
