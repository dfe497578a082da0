import MirrorAdapter.Proofs.Checks.Tables
import MirrorAdapter.Proofs.Vocabulary
import MirrorAdapter.Support.Standard

/-!
# Keywords among declared names

The names of a mirror type, its namespaces and its fields are looked at before
anything else, and none of them is a keyword where headers are made. The name
of a template parameter is not looked at: it is the last token of the
parameter, whatever word that is. Where a parameter has no name, as in
`template <unsigned int>`, this is the last word of its type, and the headers
name it as an argument of the mirror type.
-/
namespace MirrorAdapter

open Decl (Mirror DeclaresParam)
open Grammar (HeadOf)
open Name (isKeyword)

/-! ## Names that are looked at -/

/-- The names of a declaration that headers declare again. -/
def Decl.Mirror.declaredNames (m : Mirror) : List Text :=
  m.name :: m.scope ++ m.fields.map (·.name)

theorem keywordReports_eq_nil_iff (m : Mirror) :
    keywordReports m = [] ↔
      ∀ name ∈ m.declaredNames, isKeyword name = false := by
  have named (location : Location) (what name : Text) :
      (if isKeyword name then [keywordReport location what name] else []) = [] ↔
        isKeyword name = false := by
    cases isKeyword name <;> simp
  simp only [keywordReports, Decl.Mirror.declaredNames, List.append_eq_nil_iff,
    List.flatMap_eq_nil_iff, named, List.cons_append, List.forall_mem_cons,
    List.forall_mem_append, List.forall_mem_map, and_assoc]

/-- The same names in a table. -/
def Mapping.Table.declaredNames (t : Mapping.Table) : List Text :=
  t.header.name :: t.header.scope ++ t.entries.map (·.field.name)

/-- All names that headers take over from a declaration: those they declare
again, and those of the template parameters, which are the arguments in every
reference to the mirror type. -/
def Mapping.Table.names (t : Mapping.Table) : List Text :=
  t.declaredNames ++ t.header.templateParams.map (·.name)

section
variable {file : Decl.File} {m : Mirror} {model : Directive.Model}
    {spec : Mapping.Spec} {t : Mapping.Table}

theorem Stages.declaredNames_eq (h : Stages file m model spec t) :
    t.declaredNames = m.declaredNames := by
  rw [Mapping.Table.declaredNames, Decl.Mirror.declaredNames,
    Mapping.names_entries h.describes.entries, h.header_eq]
  rfl

theorem Stages.templateParams_eq (h : Stages file m model spec t) :
    t.header.templateParams = m.templateParams.map (·.toTemplateParam) := by
  rw [h.header_eq]
  rfl

theorem Stages.notKeyword (h : Stages file m model spec t) :
    ∀ name ∈ t.declaredNames, isKeyword name = false := by
  rw [h.declaredNames_eq]
  exact (keywordReports_eq_nil_iff m).mp h.keywords

end

/-! ## Names of template parameters -/

/-- The last token of a parameter is a keyword, so it is no name. -/
def EndsInKeyword (param : List Token) : Prop :=
  isKeyword (param.getLastD default).text = true

instance (param : List Token) : Decidable (EndsInKeyword param) :=
  inferInstanceAs (Decidable (_ = _))

/-- The name of a parameter is a keyword iff the parameter ends in one. -/
theorem notKeyword_params_iff {params : List (List Token)}
    {found : List TemplateParam} (h : List.Forall₂ DeclaresParam params found) :
    (∀ name ∈ found.map (·.name), isKeyword name = false) ↔
      ∀ param ∈ params, ¬EndsInKeyword param := by
  induction h with
  | nil => simp
  | cons declares _ ih =>
    rw [List.map_cons, List.forall_mem_cons, List.forall_mem_cons, ih,
      declares.name, EndsInKeyword, Bool.not_eq_true]

/-- The head of a mirror type of a file stands in that file. -/
theorem Decl.head_of_mem_mirrors {path : Text} {tokens : List Token}
    {m : Mirror} (h : m ∈ (Decl.readTokens path tokens).file.mirrors) :
    ∃ front name params,
      front ++ [name] <:+: Decl.beforeEnd tokens ∧ HeadOf front name params ∧
      m.name = name.text ∧ m.location = name.location ∧
      List.Forall₂ DeclaresParam params
        (m.templateParams.map (·.toTemplateParam)) := by
  obtain ⟨content, blocks, left, run, found⟩ :=
    Decl.exists_run_of_mem_mirrors h
  obtain ⟨front, name, params, before, rest⟩ :=
    Decl.head_of_readMirror _ found
  exact ⟨front, name, params, before.isInfix.trans run.suffix.isInfix, rest⟩

/-- A mirror type with headers and all its namespaces and fields have names
that are no keywords. Its template parameters are those between the angle
brackets in front of it, each named by its last token; so all names that
headers take over are no keywords iff no parameter there ends in one. -/
theorem notKeyword_iff_named [Support] (files : List (Text × Text))
    (c : Compilation) (t : Mapping.Table)
    (result : c ∈ compileModule (Decl.readFiles files).1)
    (table : c.table = some t) :
    (∀ name ∈ t.declaredNames, isKeyword name = false) ∧
    ∃ path text front name params, (path, text) ∈ files ∧ c.sourceFile = path ∧
      front ++ [name] <:+: Decl.beforeEnd (Token.scan path text) ∧
      HeadOf front name params ∧
      t.header.name = name.text ∧ t.header.location = name.location ∧
      List.Forall₂ DeclaresParam params t.header.templateParams ∧
      ((∀ name ∈ t.names, isKeyword name = false) ↔
        ∀ param ∈ params, ¬EndsInKeyword param) := by
  obtain ⟨file, m, declared, source, model, spec, stages⟩ :=
    stages_of_table result table
  obtain ⟨path, text, given, rfl, member⟩ := exists_text_of_declared declared
  obtain ⟨front, name, params, here, head, named, placed, params_eq⟩ :=
    Decl.head_of_mem_mirrors member
  rw [← stages.templateParams_eq] at params_eq
  refine ⟨stages.notKeyword, path, text, front, name, params, given, source,
    here, head, ?_, ?_, params_eq, ?_⟩
  · rw [← named, stages.header_eq]
    rfl
  · rw [← placed, stages.header_eq]
    rfl
  · rw [Mapping.Table.names, List.forall_mem_append,
      notKeyword_params_iff params_eq, and_iff_right stages.notKeyword]

/-- A mirror type whose one template parameter has a type and no name. -/
def unnamedParam : List (Text × Text) :=
  [("in.mirror",
      "template <unsigned int> struct [[archive_with(from(::r::A))]] M \x7b\x7d;")]

section
open Support.Standard

theorem notKeyword_iff_named_unnamedParam :
    ∃ c t, c ∈ compileModule (Decl.readFiles unnamedParam).1 ∧
      c.table = some t ∧ (∀ name ∈ t.declaredNames, isKeyword name = false) ∧
      ∃ params, List.Forall₂ DeclaresParam params t.header.templateParams ∧
        ∃ param ∈ params, EndsInKeyword param := by
  obtain ⟨c, result, t, table, int⟩ :
      ∃ c ∈ compileModule (Decl.readFiles unnamedParam).1,
        ∃ t ∈ c.table, Text.ofString "int" ∈ t.names := by
    decide +kernel
  obtain ⟨declared, -, -, -, -, params, -, -, -, -, -, -, declares, all⟩ :=
    notKeyword_iff_named unnamedParam c t result table
  refine ⟨c, t, result, table, declared, params, declares, ?_⟩
  by_contra none_ends
  exact absurd (all.mpr (by simpa using none_ends) _ int) (by decide +kernel)

/-- Nothing is reported, and the headers name `int` as an argument of the
mirror type. -/
theorem unnamedParam_namedInt :
    (Decl.readFiles unnamedParam).2 = [] ∧ isKeyword "int" = true ∧
    ∃ c ∈ compileModule (Decl.readFiles unnamedParam).1,
      c.failed = false ∧ c.log = [] ∧
      ∃ t ∈ c.table, Text.ofString "int" ∈ t.names ∧ ∃ a ∈ c.headers,
          Text.ofString "struct ArchiveWith<::M<int>, ::r::A>" <:+:
            a.content := by
  decide +kernel

end

end MirrorAdapter
