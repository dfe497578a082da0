import MirrorAdapter.Adapter.Layout

/-!
# Index of mirror types

Finds the mirror type that a spelling means in a namespace: the innermost one,
as the target language looks names up. The first type of a qualified name
keeps its place.
-/
namespace MirrorAdapter
namespace Adapter

/-- A mirror type and the header to include for it. -/
structure IndexEntry where
  qualifiedName : Text
  umbrella : Text
deriving Repr, DecidableEq, Inhabited

/-- Entries with distinct names, in the order in which they were added. -/
structure Index where
  entries : List IndexEntry := []
deriving Repr, Inhabited

namespace Index

def find? (index : Index) (name : Text) : Option IndexEntry :=
  index.entries.find? (·.qualifiedName == name)

def add (index : Index) (scope : List Text) (name : Text) : Index :=
  let entry : IndexEntry :=
    ⟨qualifiedName scope name, umbrellaPath scope name⟩
  match index.find? entry.qualifiedName with
  | some _ => index
  | none => ⟨index.entries ++ [entry]⟩

def size (index : Index) : Nat := index.entries.length

def ofModule (m : Decl.Module) : Index :=
  (m.flatMap (·.mirrors)).foldl
    (fun index mirror => index.add mirror.scope mirror.name) {}

/-- The entry of a name in the namespace of the first `depth` components of a
scope or, failing that, in the nearest enclosing one. -/
def findWithin (index : Index) (scope : List Text) (name : Text) :
    Nat → Option IndexEntry
  | 0 => index.find? name
  | depth + 1 =>
    match index.find? (qualifiedName (scope.take (depth + 1)) name) with
    | some entry => some entry
    | none => findWithin index scope name depth

/-- The mirror type that a spelling means in a scope. Template arguments do
not matter; what has blanks or parentheses before them is no plain name. -/
def lookup (index : Index) (spelling : Text) (scope : List Text) :
    Option IndexEntry :=
  let name := Text.trim (spelling.takeWhile fun b : Byte => b != '<')
  if name.isEmpty || name.contains ' ' || name.contains '(' then none
  else if List.isPrefixOf (Text.ofString "::") name then
    index.find? (name.drop 2)
  else findWithin index scope name scope.length

end Index
end Adapter
end MirrorAdapter
