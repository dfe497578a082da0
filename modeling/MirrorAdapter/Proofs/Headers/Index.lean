import MirrorAdapter.Adapter.Index
import MirrorAdapter.Proofs.Repetition

/-!
# Types in an index

An index keys its entries by qualified names, which are plain texts. As long
as no component of a name has a colon the components can be read off the text,
so the keys stand for the types themselves: what an index answers is settled
by which types have been added to it, in whatever order and however often.
-/
namespace MirrorAdapter

/-! ## Qualified names -/

/-- The components of a qualified name have no colons. -/
def NoColons (scope : List Text) (name : Text) : Prop :=
  ∀ part ∈ name :: scope, (':' : Byte) ∉ part

instance (scope : List Text) (name : Text) : Decidable (NoColons scope name) :=
  inferInstanceAs (Decidable (∀ part ∈ name :: scope, (':' : Byte) ∉ part))

theorem qualifiedName_cons (component : Text)
    (scope : List Text) (name : Text) :
    qualifiedName (component :: scope) name = component ++ (':' : Byte) ::
        (':' : Byte) :: qualifiedName scope name := by
  simp [qualifiedName, Text.terminated, Text.ofString]

theorem NoColons.tail {component : Text} {scope : List Text} {name : Text}
    (h : NoColons (component :: scope) name) :
    (':' : Byte) ∉ component ∧ NoColons scope name := by
  simp only [NoColons, List.forall_mem_cons] at h ⊢
  exact ⟨h.2.1, h.1, h.2.2⟩

/-- A component ends at the first separator. -/
theorem takeWhile_component {separator : Byte} {component : Text}
    (h : separator ∉ component) (rest : Text) :
    (component ++ separator :: rest).takeWhile (· != separator) =
      component := by
  rw [List.takeWhile_append_of_pos, List.takeWhile_cons_of_neg (by simp),
    List.append_nil]
  intro b inside
  exact bne_iff_ne.mpr fun same => h (same ▸ inside)

/-- Without colons in them the components can be read off a qualified name. -/
theorem qualifiedName_inj {scope scope' : List Text} {name name' : Text}
    (h : NoColons scope name) (h' : NoColons scope' name')
    (same : qualifiedName scope name = qualifiedName scope' name') :
    scope = scope' ∧ name = name' := by
  induction scope generalizing scope' with
  | nil =>
    cases scope' with
    | nil => exact ⟨rfl, same⟩
    | cons component scope' =>
      rw [qualifiedName_cons] at same
      have colon : (':' : Byte) ∈ name := (show name = _ from same) ▸ by simp
      exact absurd colon (h name (.head _))
  | cons component scope ih =>
    cases scope' with
    | nil =>
      rw [qualifiedName_cons] at same
      have colon : (':' : Byte) ∈ name' :=
        (show _ = name' from same) ▸ by simp
      exact absurd colon (h' name' (.head _))
    | cons component' scope' =>
      rw [qualifiedName_cons, qualifiedName_cons] at same
      obtain rfl : component = component' := by
        have := congrArg (List.takeWhile (· != (':' : Byte))) same
        rwa [takeWhile_component h.tail.1, takeWhile_component h'.tail.1]
          at this
      simp only [List.append_cancel_left_eq, List.cons.injEq, true_and] at same
      obtain ⟨rfl, names⟩ := ih h.tail.2 h'.tail.2 same
      exact ⟨rfl, names⟩

namespace Adapter

/-! ## Adding types -/

/-- The name of a type with the namespaces around it. -/
@[ext]
structure TypeName where
  scope : List Text
  name : Text
deriving Repr, DecidableEq

def TypeName.qualifiedName (type : TypeName) : Text :=
  MirrorAdapter.qualifiedName type.scope type.name

/-- No component of a type's name has a colon. -/
def TypeName.Plain (type : TypeName) : Prop := NoColons type.scope type.name

/-- Qualified names stand for types. -/
theorem TypeName.eq_of_qualifiedName_eq {type type' : TypeName}
    (h : type.Plain) (h' : type'.Plain)
    (same : type.qualifiedName = type'.qualifiedName) : type = type' :=
  TypeName.ext_iff.mpr (qualifiedName_inj h h' same)

def IndexEntry.ofType (type : TypeName) : IndexEntry :=
  ⟨type.qualifiedName, umbrellaPath type.scope type.name⟩

namespace Index

/-- The index to which the types have been added, one after another. -/
def ofTypes (types : List TypeName) : Index :=
  types.foldl (fun index type => index.add type.scope type.name) {}

theorem ofTypes_concat (types : List TypeName) (type : TypeName) :
    ofTypes (types ++ [type]) = (ofTypes types).add type.scope type.name := by
  rw [ofTypes, List.foldl_append]
  rfl

/-- The types that come first with their names are kept. -/
theorem entries_ofTypes (types : List TypeName) :
    (ofTypes types).entries =
      (Repetition.firsts TypeName.qualifiedName types).map
        IndexEntry.ofType := by
  induction types using List.reverseRecOn with
  | nil => rfl
  | append_singleton types type ih =>
    -- The name is in the index iff a type before has it.
    have known : (ofTypes types).find? type.qualifiedName = none ↔
        type.qualifiedName ∉ types.map TypeName.qualifiedName := by
      rw [Index.find?,
        Repetition.find?_eq_none_iff (fun e : IndexEntry => e.qualifiedName),
        ih, List.map_map]
      exact not_congr (Repetition.mem_map_firsts TypeName.qualifiedName types _)
    rw [ofTypes_concat, Repetition.firsts_concat, List.map_append, ← ih]
    unfold Index.add
    dsimp only
    rw [show MirrorAdapter.qualifiedName type.scope type.name =
          type.qualifiedName from rfl]
    split <;> rename_i found
    · rw [if_pos]
      · simp
      · by_contra new
        simp [known.mpr new] at found
    · rw [if_neg (known.mp found)]
      rfl

/-- There are as many entries as there are distinct qualified names. -/
theorem size_ofTypes (types : List TypeName) :
    (ofTypes types).size =
      (types.map TypeName.qualifiedName).toFinset.card := by
  rw [size, entries_ofTypes, List.length_map, Repetition.length_firsts]

/-- The first type of a name is found. -/
theorem find?_ofTypes (types : List TypeName) (name : Text) :
    (ofTypes types).find? name =
      (types.find? (·.qualifiedName == name)).map IndexEntry.ofType := by
  rw [find?, entries_ofTypes, List.find?_map,
    ← Repetition.find?_firsts TypeName.qualifiedName]
  rfl

theorem find?_ofTypes_eq_none_iff (types : List TypeName) (name : Text) :
    (ofTypes types).find? name = none ↔
      name ∉ types.map TypeName.qualifiedName := by
  rw [find?_ofTypes, Option.map_eq_none_iff,
    Repetition.find?_eq_none_iff TypeName.qualifiedName]

/-- A qualified name leads to the type that it is made of, if that has been
added. -/
theorem find?_ofTypes_qualifiedName {types : List TypeName}
    (plain : ∀ type ∈ types, type.Plain) {type : TypeName} (own : type.Plain) :
    (ofTypes types).find? type.qualifiedName =
      if type ∈ types then some (.ofType type) else none := by
  split <;> rename_i added
  · -- Of all types that have been added only this one has its name.
    rw [find?_ofTypes, Option.map_eq_some_iff]
    cases found : types.find? (·.qualifiedName == type.qualifiedName) with
    | none => exact absurd (List.find?_eq_none.mp found type added) (by simp)
    | some first =>
      have named : first.qualifiedName = type.qualifiedName :=
        eq_of_beq (List.find?_some found :)
      obtain rfl :=
        TypeName.eq_of_qualifiedName_eq
          (plain first (List.mem_of_find?_eq_some found)) own named
      exact ⟨first, rfl, rfl⟩
  · rw [find?_ofTypes_eq_none_iff, List.mem_map]
    rintro ⟨other, known, named⟩
    exact added
      (TypeName.eq_of_qualifiedName_eq (plain other known) own named ▸ known)

/-- Types with the same qualified names make indexes with the same answers. -/
theorem find?_ofTypes_congr {types types' : List TypeName}
    (plain : ∀ type ∈ types, type.Plain) (plain' : ∀ type ∈ types', type.Plain)
    (names : ∀ name, name ∈ types.map TypeName.qualifiedName ↔
        name ∈ types'.map TypeName.qualifiedName)
    (name : Text) :
    (ofTypes types).find? name = (ofTypes types').find? name := by
  by_cases known : name ∈ types.map TypeName.qualifiedName
  · obtain ⟨type, added, rfl⟩ := List.mem_map.mp known
    obtain ⟨type', added', same⟩ := List.mem_map.mp ((names _).mp known)
    obtain rfl : type' = type :=
      TypeName.eq_of_qualifiedName_eq (plain' _ added') (plain _ added) same
    rw [find?_ofTypes_qualifiedName plain (plain _ added), if_pos added,
      find?_ofTypes_qualifiedName plain' (plain _ added), if_pos added']
  · rw [(find?_ofTypes_eq_none_iff types name).mpr known,
      (find?_ofTypes_eq_none_iff types' name).mpr
        fun known' => known ((names name).mpr known')]

/-! ## Spellings -/

/-- What indexes answer to spellings is settled by what they answer to
qualified names. -/
theorem lookup_congr {index index' : Index}
    (h : ∀ name, index.find? name = index'.find? name)
    (spelling : Text) (scope : List Text) :
    index.lookup spelling scope = index'.lookup spelling scope := by
  have within (name : Text) (depth : Nat) :
      index.findWithin scope name depth =
        index'.findWithin scope name depth := by
    induction depth with
    | zero => exact h name
    | succ depth ih => rw [findWithin, findWithin, h, ih]
  simp only [lookup, h, within]

end Index
end Adapter
end MirrorAdapter
