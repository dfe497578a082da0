import MirrorAdapter.Proofs.Headers.Index
import MirrorAdapter.Proofs.Lexemes
import Mathlib.Order.Bounds.Basic

/-!
# Which type a spelling means

A spelling with a leading `::` means the type of just that name. Any other one
is tried in the namespace where it stands and then in those around it, so an
inner type hides the outer ones of its name. Template arguments behind the
name make no difference.
-/
namespace MirrorAdapter

/-- A text without white space has nothing to trim. -/
theorem Text.trim_eq_self {s : Text} (h : ∀ b ∈ s, Byte.isSpace b = false) :
    Text.trim s = s := by
  have keep {s : Text} (h : ∀ b ∈ s, Byte.isSpace b = false) :
      s.dropWhile Byte.isSpace = s := by
    cases s with
    | nil => rfl
    | cons b rest => rw [List.dropWhile_cons_of_neg (by simp [h b])]
  rw [trim, keep h, keep (by simpa using h), List.reverse_reverse]

theorem qualifiedName_append (outer scope : List Text) (name : Text) :
    qualifiedName (outer ++ scope) name =
      qualifiedName outer (qualifiedName scope name) := by
  simp [qualifiedName, Text.terminated]

namespace Adapter

open Name (IsName isNameByte)

/-! ## Names as they are spelled -/

namespace TypeName

/-- The type that the name means if it is taken in a namespace. -/
def within (scope : List Text) (type : TypeName) : TypeName :=
  ⟨scope ++ type.scope, type.name⟩

theorem qualifiedName_within (scope : List Text) (type : TypeName) :
    (type.within scope).qualifiedName =
      MirrorAdapter.qualifiedName scope type.qualifiedName :=
  qualifiedName_append scope type.scope type.name

/-- The type and the namespaces around it have names. -/
structure IsNamed (type : TypeName) : Prop where
  name : IsName type.name
  scope : ∀ component ∈ type.scope, IsName component

instance (type : TypeName) : Decidable type.IsNamed :=
  decidable_of_iff
    (IsName type.name ∧ ∀ component ∈ type.scope, IsName component)
    ⟨fun h => ⟨h.1, h.2⟩, fun h => ⟨h.name, h.scope⟩⟩

variable {type : TypeName}

theorem IsNamed.plain (h : type.IsNamed) : type.Plain :=
  List.forall_mem_cons.mpr ⟨h.name.not_mem (by decide),
    fun component inside => (h.scope component inside).not_mem (by decide)⟩

theorem IsNamed.within (h : type.IsNamed) {scope : List Text}
    (names : ∀ component ∈ scope, IsName component) :
    (type.within scope).IsNamed :=
  ⟨h.name, List.forall_mem_append.mpr ⟨names, h.scope⟩⟩

theorem IsNamed.bytes (h : type.IsNamed) :
    ∀ b ∈ type.qualifiedName, isNameByte b = true ∨ b = ':' := by
  intro b inside
  obtain terminated | own := List.mem_append.mp inside
  · obtain ⟨component, known, here⟩ := List.mem_flatMap.mp terminated
    obtain byte | colon := List.mem_append.mp here
    · exact .inl ((h.scope component known).bytes b byte)
    · exact .inr (by simpa [Text.ofString] using colon)
  · exact .inl (h.name.bytes b own)

/-- A qualified name starts as a name does. -/
theorem IsNamed.starts (h : type.IsNamed) :
    ∃ b rest, type.qualifiedName = b :: rest ∧ isNameByte b = true := by
  have starts {s : Text} (name : IsName s) (rest : Text) :
      ∃ b rest', s ++ rest = b :: rest' ∧ isNameByte b = true := by
    obtain ⟨b, tail, rfl⟩ := List.exists_cons_of_ne_nil name.nonempty
    exact ⟨b, _, rfl, name.bytes b (.head _)⟩
  obtain ⟨scope, name⟩ := type
  cases scope with
  | nil => exact List.append_nil name ▸ starts h.name []
  | cons component scope =>
    rw [qualifiedName, qualifiedName_cons]
    exact starts (h.scope component (.head _)) _

end TypeName

namespace Index

variable {index : Index} {scope : List Text}

/-! ## From the inside outwards -/

/-- What is found is found in the innermost namespace that has the name. -/
theorem findWithin_eq_some_iff {name : Text} {depth : Nat} {e : IndexEntry} :
    index.findWithin scope name depth = some e ↔ ∃ k, IsGreatest {k |
            k ≤ depth ∧ index.find? (qualifiedName (scope.take k) name) ≠ none}
          k ∧ index.find? (qualifiedName (scope.take k) name) = some e := by
  induction depth with
  | zero =>
    constructor
    · intro found
      have found :
          index.find? (qualifiedName (scope.take 0) name) = some e := found
      exact ⟨0,
        ⟨⟨le_rfl, found.trans_ne (Option.some_ne_none e)⟩,
          fun j inside => inside.1⟩,
        found⟩
    · rintro ⟨k, ⟨⟨outermost, -⟩, -⟩, found⟩
      obtain rfl : k = 0 := by omega
      exact found
  | succ depth ih =>
    rw [findWithin]
    cases here : index.find? (qualifiedName (scope.take (depth + 1)) name) with
    | some entry =>
      constructor
      · rintro ⟨⟩
        exact ⟨depth + 1,
          ⟨⟨le_rfl, here.trans_ne (Option.some_ne_none _)⟩,
            fun j inside => inside.1⟩,
          here⟩
      · rintro ⟨k, ⟨⟨inside, -⟩, greatest⟩, found⟩
        have least : depth + 1 ≤ k :=
          greatest ⟨le_rfl, here.trans_ne (Option.some_ne_none _)⟩
        obtain rfl : k = depth + 1 := by omega
        exact here.symm.trans found
    | none =>
      have same :
          {k | k ≤ depth + 1 ∧
            index.find? (qualifiedName (scope.take k) name) ≠ none} =
            {k | k ≤ depth ∧
              index.find? (qualifiedName (scope.take k) name) ≠ none} := by
        ext k
        refine and_congr_left fun found => ⟨fun inside => ?_, by omega⟩
        have other : k ≠ depth + 1 := fun last => found (last ▸ here)
        omega
      rw [same]
      exact ih

theorem findWithin_eq_none_iff {name : Text} {depth : Nat} :
    index.findWithin scope name depth = none ↔
      ∀ k ≤ depth, index.find? (qualifiedName (scope.take k) name) = none := by
  induction depth with
  | zero => simp [findWithin, qualifiedName, Text.terminated]
  | succ depth ih =>
    simp only [findWithin, Nat.le_succ_iff, or_imp, forall_and, forall_eq]
    cases index.find? (qualifiedName (scope.take (depth + 1)) name) with
    | some entry => simp
    | none => simpa using ih

/-! ## Spellings -/

/-- Nothing stands behind a name, or template arguments do. -/
def IsTail (behind : Text) : Prop :=
  behind = [] ∨ ∃ arguments, behind = ('<' : Byte) :: arguments

/-- The bytes of a name have no other meaning in a spelling. -/
theorem lookup_append {name behind : Text} (nonempty : name ≠ [])
    (bytes : ∀ b ∈ name, isNameByte b = true ∨ b = ':')
    (ends : IsTail behind) : index.lookup (name ++ behind) scope =
      if List.isPrefixOf (Text.ofString "::") name then
        index.find? (name.drop 2)
      else index.findWithin scope name scope.length := by
  have harmless (b : Byte) :
      isNameByte b = true ∨ b = ':' →
      b ≠ '<' ∧ b ≠ ' ' ∧ b ≠ '(' ∧ b.isSpace = false :=
    Byte.forall_of_lt (P := fun b => isNameByte b = true ∨ b = ':' →
          b ≠ '<' ∧ b ≠ ' ' ∧ b ≠ '(' ∧ b.isSpace = false)
      (by decide +kernel) b
  have cut : ((name ++ behind).takeWhile fun b : Byte => b != '<') = name := by
    rw [List.takeWhile_append_of_pos
        fun b inside => bne_iff_ne.mpr (harmless b (bytes b inside)).1]
    obtain rfl | ⟨arguments, rfl⟩ := ends
    · exact List.append_nil name
    · rw [List.takeWhile_cons_of_neg (by simp), List.append_nil]
  have trimmed : Text.trim name = name :=
    Text.trim_eq_self fun b inside => (harmless b (bytes b inside)).2.2.2
  have blank : (' ' : Byte) ∉ name :=
    fun inside => (harmless _ (bytes _ inside)).2.1 rfl
  have parenthesis : ('(' : Byte) ∉ name :=
    fun inside => (harmless _ (bytes _ inside)).2.2.1 rfl
  rw [lookup, cut, trimmed, if_neg (by simp [nonempty, blank, parenthesis])]

/-- How many components of the scope there can be before the name so that it
is one of the types. -/
def depths (types : List TypeName) (scope : List Text) (spelled : TypeName) :
    Set Nat :=
  {k | k ≤ scope.length ∧ spelled.within (scope.take k) ∈ types}

section
variable {types : List TypeName} {spelled : TypeName} {behind : Text}

theorem find?_within (added : ∀ type ∈ types, type.IsNamed)
    (names : ∀ component ∈ scope, IsName component)
    (named : spelled.IsNamed) (k : Nat) :
    (ofTypes types).find? (qualifiedName (scope.take k) spelled.qualifiedName) =
      if spelled.within (scope.take k) ∈ types then
        some (.ofType (spelled.within (scope.take k)))
      else none := by
  rw [← TypeName.qualifiedName_within]
  exact find?_ofTypes_qualifiedName (fun type known => (added type known).plain)
    (named.within fun component inside =>
          names component (List.mem_of_mem_take inside)).plain

/-- Without a leading `::` the name is looked up from the inside outwards. -/
theorem lookup_relative (named : spelled.IsNamed) (ends : IsTail behind) :
    index.lookup (spelled.qualifiedName ++ behind) scope =
      index.findWithin scope spelled.qualifiedName scope.length := by
  obtain ⟨b, rest, starts, byte⟩ := named.starts
  have relative :
      ¬List.isPrefixOf (Text.ofString "::") spelled.qualifiedName := by
    rw [starts, List.isPrefixOf_iff_prefix]
    intro leads
    obtain ⟨rfl, -⟩ :=
      List.cons_prefix_cons.mp
        (show [(':' : Byte), ':'] <+: b :: rest from leads)
    exact absurd byte (by decide)
  rw [lookup_append (starts ▸ List.cons_ne_nil b rest) named.bytes ends,
    if_neg relative]

/-- With a leading `::` it is looked up as it is. -/
theorem lookup_global (named : spelled.IsNamed) (ends : IsTail behind) :
    index.lookup ("::" ++ spelled.qualifiedName ++ behind) scope =
      index.find? spelled.qualifiedName := by
  have bytes :
      ∀ b ∈ Text.ofString "::" ++ spelled.qualifiedName,
        isNameByte b = true ∨ b = ':' :=
    List.forall_mem_append.mpr
      ⟨fun b colon => .inr (by simpa [Text.ofString] using colon), named.bytes⟩
  rw [lookup_append (by simp [Text.ofString]) bytes ends,
    if_pos (by simp [Text.ofString])]
  rfl

theorem lookup_relative_eq_some_iff (added : ∀ type ∈ types, type.IsNamed)
    (names : ∀ component ∈ scope, IsName component)
    (named : spelled.IsNamed) (ends : IsTail behind) {e : IndexEntry} :
    (ofTypes types).lookup (spelled.qualifiedName ++ behind) scope = some e ↔
      ∃ k, IsGreatest (depths types scope spelled) k ∧
        e = .ofType (spelled.within (scope.take k)) := by
  have found := find?_within added names named
  have same :
      {k | k ≤ scope.length ∧ (ofTypes types).find?
          (qualifiedName (scope.take k) spelled.qualifiedName) ≠ none} =
        depths types scope spelled := by
    ext k
    simp [found, depths]
  rw [lookup_relative named ends, findWithin_eq_some_iff, same]
  refine exists_congr fun k => and_congr_right fun greatest => ?_
  rw [found, if_pos greatest.1.2, Option.some_inj, eq_comm]

theorem lookup_relative_eq_none_iff (added : ∀ type ∈ types, type.IsNamed)
    (names : ∀ component ∈ scope, IsName component)
    (named : spelled.IsNamed) (ends : IsTail behind) :
    (ofTypes types).lookup (spelled.qualifiedName ++ behind) scope = none ↔
      depths types scope spelled = ∅ := by
  rw [lookup_relative named ends, findWithin_eq_none_iff,
    Set.eq_empty_iff_forall_notMem]
  simp [find?_within added names named, depths]

end

/-! ## Indexes of the same types -/

section
variable {types types' : List TypeName}
    (same : ∀ type, type ∈ types' ↔ type ∈ types)
include same

theorem mem_qualifiedNames_congr (name : Text) :
    name ∈ types'.map TypeName.qualifiedName ↔
      name ∈ types.map TypeName.qualifiedName := by
  simp only [List.mem_map, same]

theorem size_congr : (ofTypes types').size = (ofTypes types).size := by
  rw [size_ofTypes, size_ofTypes]
  congr 1
  ext name
  rw [List.mem_toFinset, List.mem_toFinset, mem_qualifiedNames_congr same]

theorem lookup_ofTypes_congr (added : ∀ type ∈ types, type.IsNamed)
    (spelling : Text) (scope : List Text) :
    (ofTypes types').lookup spelling scope =
      (ofTypes types).lookup spelling scope := by
  have plain : ∀ type ∈ types, type.Plain :=
    fun type known => (added type known).plain
  have plain' : ∀ type ∈ types', type.Plain :=
    fun type known => plain type ((same type).mp known)
  exact lookup_congr
    (find?_ofTypes_congr plain' plain (mem_qualifiedNames_congr same))
    spelling scope

end

/-- A spelled name means the type in the innermost namespace that has one of
its name, and after a leading `::` the type of just that name. An index has
one entry for each qualified name, and neither the order in which types are
added nor how often makes a difference. -/
theorem lookup_innermost {types : List TypeName} {spelled : TypeName}
    {behind : Text} (added : ∀ type ∈ types, type.IsNamed)
    (names : ∀ component ∈ scope, IsName component)
    (named : spelled.IsNamed) (ends : IsTail behind) :
    (∀ e, (ofTypes types).lookup (spelled.qualifiedName ++ behind) scope =
          some e ↔ ∃ k, IsGreatest (depths types scope spelled) k ∧
          e = .ofType (spelled.within (scope.take k))) ∧
    ((ofTypes types).lookup (spelled.qualifiedName ++ behind) scope = none ↔
      depths types scope spelled = ∅) ∧
    ((ofTypes types).lookup ("::" ++ spelled.qualifiedName ++ behind) scope =
        if spelled ∈ types then some (.ofType spelled) else none) ∧
      (ofTypes types).size = (types.map TypeName.qualifiedName).toFinset.card ∧
      ∀ types', (∀ type, type ∈ types' ↔ type ∈ types) →
        (ofTypes types').size = (ofTypes types).size ∧ ∀ spelling scope,
          (ofTypes types').lookup spelling scope =
            (ofTypes types).lookup spelling scope := by
  refine ⟨fun e => lookup_relative_eq_some_iff added names named ends,
    lookup_relative_eq_none_iff added names named ends, ?_, size_ofTypes types,
    fun types' same => ⟨size_congr same, lookup_ofTypes_congr same added⟩⟩
  rw [lookup_global named ends]
  exact find?_ofTypes_qualifiedName
    (fun type known => (added type known).plain) named.plain

/-- Two types with one name, one inside of a namespace, and a type that has
been added twice. -/
def nestedTypes : List TypeName :=
  [⟨[], "Point"⟩, ⟨["geo", "detail"], "Inner"⟩, ⟨["geo"], "Point"⟩,
    ⟨["geo", "detail"], "Inner"⟩]

theorem lookup_innermost_nestedTypes :
    (ofTypes nestedTypes).lookup "Point<int, 4>" ["geo", "detail"] =
      some ⟨"geo::Point", "geo/Point.hpp"⟩ ∧
    (ofTypes nestedTypes).lookup "::Point<int, 4>" ["geo", "detail"] =
      some ⟨"Point", "Point.hpp"⟩ ∧ (ofTypes nestedTypes).size = 3 := by
  obtain ⟨relative, -, outermost, size, -⟩ :=
    @lookup_innermost ["geo", "detail"] nestedTypes ⟨[], "Point"⟩ "<int, 4>"
      (by decide) (by decide) (by decide) (.inr ⟨_, rfl⟩)
  -- With both components there is no such type, so the next one out is meant.
  have hidden :
      ∀ k ≤ 2,
        TypeName.within (List.take k ["geo", "detail"]) ⟨[], "Point"⟩ ∈
          nestedTypes → k ≤ 1 := by
    decide
  have greatest :
      IsGreatest (depths nestedTypes ["geo", "detail"] ⟨[], "Point"⟩) 1 :=
    ⟨⟨by decide, by decide⟩, fun k inside => hidden k inside.1 inside.2⟩
  exact ⟨(relative _).mpr ⟨1, greatest, by decide⟩, outermost,
    size.trans (by decide)⟩

end Index
end Adapter
end MirrorAdapter
