import MirrorAdapter.Proofs.Checks.Directives
import MirrorAdapter.Proofs.Checks.Validation
import MirrorAdapter.Proofs.Spellings
import MirrorAdapter.Proofs.Vocabulary

/-!
# Repeated remote types

A remote type is reported if its text, without blanks and without each `::` at
global scope, is that of an earlier one. For a type as it is usually written
this is said of its tokens: they are compared without each `::` that no name
goes on with, and neighbouring words count as one.
-/
namespace MirrorAdapter

open Decl (File Mirror)

/-! ## Tokens of remote types -/

namespace Directive

/-- The tokens of all types in the `from` lists of a type, in order. -/
def remoteTokens (attributes : List Decl.Attribute) : List (List Token) :=
  ((writtenItems attributes).filter (isItemOf .source)).flatMap
    fun item => splitArguments (inParentheses item)

theorem flatten_sourceLists (attributes : List Decl.Attribute) :
    (sourceLists attributes).flatten =
      (remoteTokens attributes).map spelledType := by
  rw [sourceLists, ← List.flatMap_def, remoteTokens, List.map_flatMap]
  rfl

/-- The tokens of remote types are arguments of attributes. -/
theorem forall_remoteTokens {Q : Token → Prop}
    {attributes : List Decl.Attribute} (h : ∀ a ∈ attributes, a.Of Q) :
    ∀ type ∈ remoteTokens attributes, ∀ t ∈ type, Q t := by
  intro type listed t inside
  obtain ⟨item, found, part⟩ := List.mem_flatMap.mp listed
  obtain ⟨a, member, written⟩ :=
    List.mem_flatMap.mp (List.mem_filter.mp found).1
  have inItem : t ∈ item :=
    List.mem_of_mem_drop
      (List.dropLast_subset _ (mem_of_mem_splitArguments part inside))
  have argument := mem_of_mem_splitArguments written inItem
  cases arguments : a.arguments with
  | none =>
    rw [arguments] at argument
    cases argument
  | some tokens =>
    rw [arguments] at argument
    exact h a member tokens arguments t argument

end Directive

open Directive (remoteTokens spelledType)
open Mapping (Spec Header Fault)

/-- The tokens of remote types come from the text of the file. -/
theorem proper_of_remoteTokens {files : List (Text × Text)} {file : File}
    {m : Mirror} (h : (file, m) ∈ declarations (Decl.readFiles files).1) :
    ∀ type ∈ remoteTokens m.attributes, ∀ t ∈ type, t.Proper := by
  obtain ⟨path, text, -, rfl, member⟩ := exists_text_of_declared h
  refine Directive.forall_remoteTokens
    (Decl.attributes_of_mem_mirrors (fun t inside => ?_) member)
  have token := (List.takeWhile_prefix _).subset inside
  exact ⟨Token.lexical_of_mem_scan token,
    by simpa using List.mem_takeWhile_imp inside⟩

/-! ## Reports of remote types -/

namespace Mapping

/-- What is reported of each remote type for being listed before. -/
def Spec.repeatedTypes (s : Spec) : List (Option Diagnostic) :=
  (Repetition.withFirst (TypeSpelling.key ·.spelling) s.header.remoteTypes).map
    fun (r, first) =>
    first.map fun f => (Fault.repeatedRemoteType r.spelling f.location).report
          (.mirror s.header.qualifiedName) r.location

/-- Among all reports those of repeated remote types are in the order of the
types. -/
theorem filter_reports (s : Spec) :
    s.reports.filter (·.kind == .duplicateRemoteType) =
      s.repeatedTypes.reduceOption := by
  show _ = s.repeatedTypes.filterMap id
  rw [filter_duplicates, Repetition.repeats, List.map_filterMap,
    Spec.repeatedTypes, List.filterMap_map]
  refine List.filterMap_congr fun pair _ => ?_
  obtain ⟨r, _ | first⟩ := pair <;> rfl

end Mapping

/-! ## What counts as repeated -/

/-- An earlier element of the list is related to the one at the position. -/
def HasEarlier {α : Type} (related : α → α → Prop) (elements : List α)
    (j : Nat) : Prop :=
  ∃ i < j, ∃ a b, elements[i]? = some a ∧ elements[j]? = some b ∧ related a b

/-- The types have one text, without blanks and without each `::` at global
scope. -/
def SameText (type other : List Token) : Prop :=
  Token.compact (Token.withoutGlobal none type) =
    Token.compact (Token.withoutGlobal none other)

/-- The types have the same kinds and texts of tokens, without each `::` at
global scope and with neighbouring words taken as one. -/
def SameTokens (type other : List Token) : Prop :=
  Token.joined (Token.withoutGlobal none type) =
    Token.joined (Token.withoutGlobal none other)

/-- No token is a string literal or a quote mark. -/
def NoQuotes (type : List Token) : Prop :=
  ∀ t ∈ type, t.kind ≠ .string ∧ t.text ≠ "'"

theorem hasEarlier_congr {α : Type}
    {related related' : α → α → Prop} {elements : List α} {j : Nat}
    (h : ∀ a ∈ elements, ∀ b ∈ elements, related a b ↔ related' a b) :
    HasEarlier related elements j ↔ HasEarlier related' elements j := by
  have one {a b : α} {i : Nat} (ha : elements[i]? = some a)
      (hb : elements[j]? = some b) : related a b ↔ related' a b :=
    h a (List.mem_of_getElem? ha) b (List.mem_of_getElem? hb)
  constructor
  · rintro ⟨i, before, a, b, ha, hb, same⟩
    exact ⟨i, before, a, b, ha, hb, (one ha hb).mp same⟩
  · rintro ⟨i, before, a, b, ha, hb, same⟩
    exact ⟨i, before, a, b, ha, hb, (one ha hb).mpr same⟩

/-- An element is paired iff an earlier one has its key. -/
theorem isSome_withFirst_iff {α : Type} (key : α → Text)
    {elements : List α} {j : Nat} {pair : α × Option α}
    (h : (Repetition.withFirst key elements)[j]? = some pair) :
    elements[j]? = some pair.1 ∧
    (pair.2.isSome = true ↔
      HasEarlier (fun a b => key a = key b) elements j) := by
  rw [Repetition.withFirst_getElem?, Option.map_eq_some_iff] at h
  obtain ⟨b, here, rfl⟩ := h
  refine ⟨here, ?_⟩
  rw [List.find?_isSome]
  constructor
  · rintro ⟨a, before, same⟩
    obtain ⟨i, found⟩ := List.mem_iff_getElem?.mp before
    rw [List.getElem?_take] at found
    split at found
    · exact ⟨i, ‹_›, a, b, found, here, eq_of_beq same⟩
    · cases found
  · rintro ⟨i, before, a, b', found, here', same⟩
    obtain rfl := Option.some.inj (here.symm.trans here')
    refine ⟨a, List.mem_iff_getElem?.mpr ⟨i, ?_⟩, beq_iff_eq.mpr same⟩
    rw [List.getElem?_take, if_pos before, found]

/-- The remote types of a specification are those that the attributes of its
declaration list. -/
theorem remoteTypes_of_build {file : File} {m : Mirror}
    {model : Directive.Model} {spec : Spec}
    (directives : (Directive.ofMirror m).result = .ok model)
    (build : (Spec.build file m model).result = .ok spec) :
    spec.header.remoteTypes = (remoteTokens m.attributes).map spelledType := by
  have type := (Directive.result_ofMirror m model).mp directives |>.1
  have length := Directive.length_fields_of_ofMirror directives
  obtain ⟨-, rfl⟩ := (Mapping.result_build length spec).mp build
  rw [← Directive.flatten_sourceLists, ← Directive.remoteTypes_of_ofType type]
  rfl

/-- Where `::` stands in its usual places, what is reported of remote types
goes along the types as they are written, and one is reported iff an earlier
one has the same text without blanks and without each `::` at global scope.
Without string literals and quote marks this means that they have the same
tokens, up to words that stand side by side. -/
theorem repeatedTypes_iff {files : List (Text × Text)} {file : File}
    {m : Mirror} {model : Directive.Model} {spec : Spec}
    (declared : (file, m) ∈ declarations (Decl.readFiles files).1)
    (directives : (Directive.ofMirror m).result = .ok model)
    (build : (Spec.build file m model).result = .ok spec)
    (regular : ∀ type ∈ remoteTokens m.attributes, Token.Regular type) :
    ∃ reports : List (Option Diagnostic),
      spec.validate.log.filter (·.kind == .duplicateRemoteType) =
        reports.reduceOption ∧
      reports.length = (remoteTokens m.attributes).length ∧
      (∀ j type report, (remoteTokens m.attributes)[j]? = some type →
          reports[j]? = some report → (∀ d ∈ report,
              d.severity = .error ∧ d.location = (spelledType type).location) ∧
          (report.isSome = true ↔
            HasEarlier SameText (remoteTokens m.attributes) j)) ∧
      ((∀ type ∈ remoteTokens m.attributes, NoQuotes type) →
        ∀ j report, reports[j]? = some report → (report.isSome = true ↔
            HasEarlier SameTokens (remoteTokens m.attributes) j)) := by
  have remote := remoteTypes_of_build directives build
  have proper := proper_of_remoteTokens declared
  generalize remoteTokens m.attributes = types at remote proper regular
  have length : spec.repeatedTypes.length = types.length := by
    have pairs :=
      congrArg List.length (Repetition.withFirst_map_fst
          (TypeSpelling.key ·.spelling) spec.header.remoteTypes)
    rw [List.length_map, remote, List.length_map] at pairs
    rw [Spec.repeatedTypes, List.length_map, remote, pairs]
  have sameText :
      ∀ a ∈ types, ∀ b ∈ types,
          TypeSpelling.key (Token.spell a) = TypeSpelling.key (Token.spell b) ↔
          SameText a b := by
    intro a ha b hb
    rw [Token.key_spell (proper a ha) (regular a ha),
      Token.key_spell (proper b hb) (regular b hb)]
    rfl
  have reported {j : Nat} {report : Option Diagnostic}
      (h : spec.repeatedTypes[j]? = some report) :
      ∃ type, types[j]? = some type ∧ (∀ d ∈ report,
            d.severity = .error ∧ d.location = (spelledType type).location) ∧
        (report.isSome = true ↔ HasEarlier SameText types j) := by
    rw [Spec.repeatedTypes, remote, Repetition.withFirst_map,
      List.map_map, List.getElem?_map, Option.map_eq_some_iff]
      at h
    obtain ⟨⟨type, first⟩, pair, rfl⟩ := h
    obtain ⟨here, paired⟩ := isSome_withFirst_iff _ pair
    refine ⟨type, here, fun d found => ?_, ?_⟩
    · obtain ⟨f, -, rfl⟩ := Option.map_eq_some_iff.mp found
      exact ⟨rfl, rfl⟩
    · rw [← hasEarlier_congr sameText]
      refine Iff.trans (iff_of_eq (congrArg (· = true) ?_)) paired
      simp
  refine ⟨spec.repeatedTypes, Mapping.filter_reports spec, length,
    fun j type report here found => ?_,
    fun plain j report found => ?_⟩
  · obtain ⟨type', here', facts⟩ := reported found
    obtain rfl := Option.some.inj (here.symm.trans here')
    exact facts
  · obtain ⟨-, -, -, text⟩ := reported found
    rw [text]
    have unquoted (type : List Token) (listed : type ∈ types) :
        Token.Unquoted type :=
      ⟨proper type listed, fun t inside => (plain type listed t inside).1,
        fun t inside => (plain type listed t inside).2⟩
    exact hasEarlier_congr fun a ha b hb =>
        Token.compact_eq_iff_joined (unquoted a ha) (unquoted b hb)
          (regular a ha) (regular b hb)

/-- One remote type in two spellings. -/
def twoSpellings : Decl.Module :=
  (Decl.readFiles
      [("f.mirror",
        "struct [[archive_with(from(::r::Box<::r::P, int>, r::Box< r::P,int >))]] " ++
          "M \x7b\x7d;")]).1

theorem repeatedTypes_twoSpellings :
    ∃ (file : File) (m : Mirror) (model : Directive.Model) (spec : Spec),
      (file, m) ∈ declarations twoSpellings ∧
      (Directive.ofMirror m).result = .ok model ∧
      (Spec.build file m model).result = .ok spec ∧
      (∀ type ∈ remoteTokens m.attributes, Token.Regular type ∧ NoQuotes type) ∧
      ∃ (reports : List (Option Diagnostic)) (d : Diagnostic),
        spec.validate.log.filter (·.kind == .duplicateRemoteType) =
          reports.reduceOption ∧
        reports.length = 2 ∧ reports[1]? = some (some d) ∧
        HasEarlier SameTokens (remoteTokens m.attributes) 1 := by
  have found :
      ∃ declaration ∈ declarations twoSpellings,
        ∃ model ∈ (Directive.ofMirror declaration.2).result.toOption,
          (Spec.build declaration.1 declaration.2
              model).result.toOption.isSome = true := by
    decide +kernel
  have tokens :
      ∀ declaration ∈ declarations twoSpellings,
        (∀ type ∈ remoteTokens declaration.2.attributes,
            Token.Regular type ∧ ∀ t ∈ type, t.kind ≠ .string ∧ t.text ≠ "'") ∧
        (remoteTokens declaration.2.attributes).map
          (fun type => Token.compact (Token.withoutGlobal none type)) =
          [Text.ofString "r::Box<r::P,int>",
            Text.ofString "r::Box<r::P,int>"] := by
    decide +kernel
  obtain ⟨⟨file, m⟩, declared, model, directives, built⟩ := found
  obtain ⟨spec, build⟩ := Option.isSome_iff_exists.mp built
  obtain ⟨good, texts⟩ := tokens _ declared
  replace directives := eq_ok_of_mem_toOption directives
  replace build := eq_ok_of_mem_toOption build
  refine ⟨file, m, model, spec, declared, directives, build, good, ?_⟩
  obtain ⟨reports, filtered, length, byText, byTokens⟩ :=
    repeatedTypes_iff declared directives build
      fun type listed => (good type listed).1
  obtain ⟨first, others, types, one, more⟩ := List.map_eq_cons_iff.mp texts
  obtain ⟨second, left, rfl, two, nothing⟩ := List.map_eq_cons_iff.mp more
  obtain rfl := List.map_eq_nil_iff.mp nothing
  rw [types] at length byText byTokens good ⊢
  obtain ⟨report, reported⟩ : ∃ report, reports[1]? = some report :=
    ⟨_, List.getElem?_eq_getElem (by simp [length])⟩
  have earlier : HasEarlier SameText [first, second] 1 :=
    ⟨0, by decide, first, second, rfl, rfl, one.trans two.symm⟩
  have some_made := (byText 1 second report rfl reported).2.mpr earlier
  obtain ⟨d, rfl⟩ := Option.isSome_iff_exists.mp some_made
  have plain : ∀ type ∈ [first, second], NoQuotes type :=
    fun type listed => (good type listed).2
  exact ⟨reports, d, filtered, length, reported,
    (byTokens plain 1 _ reported).mp rfl⟩

/-- Two remote types that differ in a blank between words. -/
def wordsApart : Decl.Module :=
  (Decl.readFiles
      [("f.mirror",
        "struct [[archive_with(from(unsigned int, unsignedint))]] M \x7b\x7d;")]).1

/-- The second is reported, although the tokens differ. -/
theorem wordsApart_reported :
    (declarations wordsApart).map (fun declaration =>
        (remoteTokens declaration.2.attributes).map fun type =>
            (Token.withoutGlobal none type).map fun t => (t.kind, t.text)) =
      [[[(.identifier, Text.ofString "unsigned"),
            (.identifier, Text.ofString "int")],
          [(.identifier, Text.ofString "unsignedint")]]] ∧
    ∃ declaration ∈ declarations wordsApart,
      ∃ model ∈ (Directive.ofMirror declaration.2).result.toOption,
        ∃ spec ∈ (Spec.build declaration.1 declaration.2 model).result.toOption,
          spec.validate.log.map (fun d => (d.kind, some d.location)) =
            [(.duplicateRemoteType,
                ((remoteTokens declaration.2.attributes)[1]?.map
                    spelledType).map (·.location))] := by
  decide +kernel

end MirrorAdapter
