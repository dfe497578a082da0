import MirrorAdapter.Proofs.Headers.Blocks
import Mathlib.Data.List.Forall2

/-!
# What the headers are made of

The lines of each generated header, taken apart into the blocks that matter
and what stands between them, and the statements that read the members of a
remote value, one form for each access. Nothing between or behind the blocks
reads like the head of one of them.
-/
namespace MirrorAdapter
namespace Adapter

open Mapping (Header Table Entry)

/-! ## Statements that read a member -/

section
variable (value name function remote : Text)

def directBinding : Text :=
  "const " ++ value ++ "& field_" ++ name ++ " = remote." ++ name ++ ";"

def getterBinding : Text :=
  "const " ++ value ++ "& field_" ++ name ++ " = std::invoke(&" ++
    function ++ ", remote);"

/-- The getter is called on a fresh copy, and what it returns is kept by
value. -/
def copyBinding : Text :=
  "const " ++ value ++ " field_" ++ name ++ " = std::invoke(&" ++
    function ++ ", " ++ remote ++ "(remote));"

end

/-- The function that reads a field, as it is spelled. -/
def getterName (e : Entry) : Text :=
  (e.field.directives.getter.map (·.spelling)).getD []

section
variable {h : Header} {e : Entry} {remote : Text}

theorem source_ofEntry :
    (Member.ofEntry h e).source = match e.access with
      | .direct => .direct
      | .getter => .call (getterName e)
      | .getterOwned => .callOnCopy (getterName e) := by
  simp only [Member.ofEntry, Source.ofEntry, getterName]
  cases e.field.directives.getter <;> rfl

theorem binding_direct (access : e.access = .direct) :
    (Member.ofEntry h e).binding remote =
      directBinding (Member.ofEntry h e).value e.field.name := by
  rw [Member.binding, source_ofEntry, access]
  simp [directBinding, Member.localValue, Member.ofEntry, Text.ofString]

theorem binding_getter (access : e.access = .getter) :
    (Member.ofEntry h e).binding remote =
      getterBinding (Member.ofEntry h e).value e.field.name (getterName e) := by
  rw [Member.binding, source_ofEntry, access]
  simp [getterBinding, Member.localValue, Member.ofEntry, Text.ofString]

theorem binding_getterOwned (access : e.access = .getterOwned) :
    (Member.ofEntry h e).binding remote =
      copyBinding (Member.ofEntry h e).value e.field.name
        (getterName e) remote := by
  rw [Member.binding, source_ofEntry, access]
  simp [copyBinding, Member.localValue, Member.ofEntry, Text.ofString]

end

/-! ## The blocks of each header -/

def buildHead (remote : Text) : Text :=
  "static void resolveWith(const " ++ remote ++
    "& remote, std::size_t pos, Resolver resolver, Archived* out)"

def serializeHead (resolver remote : Text) : Text :=
  "static " ++ resolver ++ " serializeWith(const " ++ remote ++
    "& remote, Serializer& serializer)"

def rebuildHead (archived remote : Text) : Text :=
  "static " ++ remote ++ " deserializeWith(const " ++ archived ++
    "& archived, Deserializer& deserializer)"

/-- What stands between the function that builds and the body of the one that
serializes. -/
def beforeSerialize (t : Table) (remote : Text) : List Line :=
  [Line.of 0 "\x7d;", Line.blank] ++ (serializeLines t remote).take 5

/-- What follows the last function of a header. -/
def afterFunctions (guard : Text) : List Line :=
  Line.of 0 "\x7d;" :: closeRuntime ++ epilogue guard

/-- The end of a header that archives a remote type, from the function that
builds on. -/
def archiveBlocks (t : Table) (remote : RemoteName) : List Line :=
  blockLines 1 (buildHead remote.type)
    (buildBody remote.type (members t)) "\x7d" ++
    (beforeSerialize t remote.type ++
      (blockLines 1 (serializeHead (resolverReference t.header) remote.type)
          (serializeBody (resolverReference t.header) remote.type (members t))
          "\x7d" ++
        afterFunctions (guardName t.header ["archive", remote.slug])))

theorem content_archiveHeader [Support] (t : Table) (remote : RemoteName) :
    ∃ front, (archiveHeader t remote).content =
        Line.renderAll (front ++ archiveBlocks t remote) := by
  have lines :
      archiveLines t remote =
        (archiveLines t remote).take 24 ++ archiveBlocks t remote := by
    simp [archiveBlocks, archiveLines, prologue, openRuntime, buildLines,
      serializeLines, blockLines, beforeSerialize, afterFunctions,
      buildHead, serializeHead]
  exact ⟨_, congrArg Line.renderAll lines⟩

theorem structLines_eq (h : Header) (name : Text) (inside : List Text) :
    structLines h name inside = (templateHead h).toList.map (Line.of 0) ++
        blockLines 0 ("struct " ++ name) inside "\x7d;" := by
  simp [structLines, blockLines]

/-- What ends the namespace of the mirror type. -/
def namespaceEnd (h : Header) : List Line :=
  if h.scope.isEmpty then []
  else [Line.blank, Line.of 0 ("\x7d  // namespace " ++ namespacePath h)]

theorem inNamespace_eq (h : Header) :
    ∃ front,
      ∀ lines, inNamespace h lines = front ++ lines ++ namespaceEnd h := by
  unfold inNamespace namespaceEnd
  split
  · exact ⟨[], fun lines => by simp⟩
  · exact ⟨_, fun lines => rfl⟩

/-- What stands between the structs of the archived form and of the
resolver. -/
def beforeResolver (h : Header) : List Line :=
  [Line.blank, Line.of 0
      ("/// Resolver state produced by serializing " ++ h.name ++ ".")] ++
    (templateHead h).toList.map (Line.of 0)

/-- The end of the header that declares the archived form, from its struct
on. -/
def reprBlocks (t : Table) : List Line :=
  blockLines 0 ("struct " ++ archivedName t.header)
    ((members t).map archivedMember) "\x7d;" ++
    (beforeResolver t.header ++
      (blockLines 0 ("struct " ++ resolverName t.header)
          ((members t).map resolverMember) "\x7d;" ++
        (namespaceEnd t.header ++ epilogue (guardName t.header ["repr"]))))

theorem content_reprHeader [Support] (t : Table) (index : Index) :
    ∃ front, (reprHeader t index).content =
        Line.renderAll (front ++ reprBlocks t) := by
  obtain ⟨opening, inside⟩ := inNamespace_eq t.header
  have lines : ∃ front, reprLines t index = front ++ reprBlocks t := ⟨_, by
    simp only [reprBlocks, reprLines, inside, structLines_eq,
      beforeResolver, ← List.append_assoc]
    rfl⟩
  exact lines.imp fun front => congrArg Line.renderAll

theorem rebuildLines_eq (t : Table) (remote : Text) :
    rebuildLines t remote = (rebuildLines t remote).take 5 ++
        (blockLines 1 (rebuildHead (archivedReference t.header) remote)
            (deserializeBody remote (members t)) "\x7d" ++
          [Line.of 0 "\x7d;"]) := by
  simp [rebuildLines, blockLines, rebuildHead]

/-- The end of the header that rebuilds remote values, from the first
specialization on. -/
def rebuildBlocks (t : Table) : List Line :=
  t.header.remoteTypes.flatMap
    (fun remote => Line.blank :: rebuildLines t remote.spelling) ++
    (closeRuntime ++ epilogue (guardName t.header ["deserialize"]))

theorem content_deserializeHeader [Support] {t : Table}
    {a : Artifact} (h : deserializeHeader t = .ok a) :
    ∃ front, a.content = Line.renderAll (front ++ rebuildBlocks t) := by
  have lines : ∃ front, deserializeLines t = front ++ rebuildBlocks t :=
    ⟨_, by
      simp only [rebuildBlocks, deserializeLines, ← List.append_assoc]
      rfl⟩
  unfold deserializeHeader at h
  split at h
  · cases h
    exact lines.imp fun front => congrArg Line.renderAll
  · cases h

/-! ## Lines that are no heads of blocks -/

theorem archivedName_ne_resolverName (h : Header) :
    resolverName h ≠ archivedName h := by
  intro same
  -- One of them has an `A` more than the other.
  have letters := congrArg (List.count ('A' : Byte)) same
  have none_there : List.count ('A' : Byte) (Text.ofString "Resolver") = 0 := by
    decide
  have one_here : List.count ('A' : Byte) (Text.ofString "Archived") = 1 := by
    decide
  rw [resolverName, archivedName, List.count_append,
    List.count_append, none_there, one_here]
    at letters
  omega

theorem templateHead_standsApart (h : Header) :
    ((templateHead h).toList.map (Line.of 0)).all (Line.standsApart 0) =
      true := by
  unfold templateHead
  split <;> rfl

theorem namespaceEnd_standsApart (h : Header) :
    (namespaceEnd h).all (Line.standsApart 0) = true := by
  unfold namespaceEnd
  split <;> rfl

theorem exists_specializationHead (h : Header) :
    ∃ s, specializationHead h = "template <" ++ s := by
  unfold specializationHead templateHead
  split
  · exact ⟨Text.ofString ">", by decide⟩
  · exact ⟨_, List.append_assoc _ _ _⟩

theorem beforeSerialize_standsApart (t : Table) (remote : Text) :
    (beforeSerialize t remote).all (Line.standsApart 1) = true := by
  obtain ⟨s, head⟩ := exists_specializationHead t.header
  unfold beforeSerialize serializeLines
  dsimp only
  rw [head]
  rfl

theorem rebuildFront_standsApart (t : Table) (remote : Text) :
    ((rebuildLines t remote).take 5).all (Line.standsApart 1) = true := by
  obtain ⟨s, head⟩ := exists_specializationHead t.header
  unfold rebuildLines
  dsimp only
  rw [head]
  rfl

theorem serializeHead_ne_buildHead (h : Header) (remote : Text) :
    serializeHead (resolverReference h) remote ≠ buildHead remote := by
  intro same
  have eighth := congrArg (fun s : Text => s[7]?) same
  exact absurd (show some (':' : Byte) = some ('v' : Byte) from eighth)
    (by decide)

theorem startsBlock_struct (name : Text) :
    StartsBlock ("struct " ++ name) := rfl

theorem startsBlock_build (remote : Text) :
    StartsBlock (buildHead remote) := rfl

theorem startsBlock_serialize (resolver remote : Text) :
    StartsBlock (serializeHead resolver remote) := rfl

theorem startsBlock_rebuild (archived remote : Text) :
    StartsBlock (rebuildHead archived remote) := rfl

theorem rebuildHead_inj {archived remote other : Text}
    (h : rebuildHead archived other = rebuildHead archived remote) :
    other = remote := by
  simpa [rebuildHead] using h

/-- Among the functions that rebuild remote values that of a type is found,
whatever lines follow them. -/
theorem blockAfter_rebuild (t : Table) {remote : Text}
    {remotes : List Text} (h : remote ∈ remotes) {back : List Line}
    (apart :
      ∀ l ∈ back, l.Apart 1 (rebuildHead (archivedReference t.header) remote)) :
    blockAfter 1 (rebuildHead (archivedReference t.header) remote)
      ((remotes.flatMap (fun r => Line.blank :: rebuildLines t r) ++ back).map
        Line.shown) =
      some (deserializeBody remote (members t)) := by
  have start := startsBlock_rebuild (archivedReference t.header) remote
  have closes : ClosesBlock "\x7d" := rfl
  induction remotes with
  | nil => cases h
  | cons r remotes ih =>
    by_cases later : remote ∈ remotes
    · rw [List.flatMap_cons, List.append_assoc, List.map_append]
      exact blockAfter_append _ (ih later)
    · obtain rfl : remote = r := (List.mem_cons.mp h).resolve_right later
      have others :
          ∀ l ∈ remotes.flatMap (fun r => Line.blank :: rebuildLines t r),
            l.Apart 1 (rebuildHead (archivedReference t.header) remote) := by
        intro l found
        obtain ⟨other, member, found⟩ := List.mem_flatMap.mp found
        have ne :
            rebuildHead (archivedReference t.header) other ≠
              rebuildHead (archivedReference t.header) remote :=
          fun same => later (rebuildHead_inj same ▸ member)
        rw [rebuildLines_eq] at found
        simp only [List.mem_cons, List.mem_append] at found
        rcases found with rfl | found | found | rfl | nothing
        · exact Line.apart_of_standsApart start rfl
        · exact apart_of_all start (rebuildFront_standsApart t other) l found
        · exact blockLines_apart start (startsBlock_rebuild _ _) closes
            ne l found
        · exact Line.apart_of_standsApart start rfl
        · cases nothing
      have shape :
          (remote :: remotes).flatMap
            (fun r => Line.blank :: rebuildLines t r) ++ back =
            (Line.blank :: (rebuildLines t remote).take 5) ++
              (blockLines 1 (rebuildHead (archivedReference t.header) remote)
                  (deserializeBody remote (members t)) "\x7d" ++
                (Line.of 0 "\x7d;" ::
                  (remotes.flatMap (fun r => Line.blank :: rebuildLines t r) ++
                    back))) := by
        conv => lhs; rw [List.flatMap_cons, rebuildLines_eq]
        simp
      rw [shape]
      refine blockAfter_lines _ start closes ?_
      rw [List.forall_mem_cons, List.forall_mem_append]
      exact ⟨Line.apart_of_standsApart start rfl, others, apart⟩

/-! ## Headers of remote types -/

theorem length_distinctSlugsFrom (taken spellings : List Text) :
    (Name.distinctSlugsFrom taken spellings).length = spellings.length := by
  fun_induction Name.distinctSlugsFrom taken spellings with
  | case1 => rfl
  | case2 taken spelling rest name ih =>
    rw [List.length_cons, List.length_cons, ih]

theorem forall₂_zipWith {P : Text → Artifact → Prop}
    {header : RemoteName → Artifact} {types slugs : List Text}
    (lengths : slugs.length = types.length)
    (h : ∀ type ∈ types, ∀ slug, P type (header ⟨type, slug⟩)) :
    List.Forall₂ P types
      ((List.zipWith RemoteName.mk types slugs).map header) := by
  induction types generalizing slugs with
  | nil => exact .nil
  | cons type types ih =>
    cases slugs with
    | nil => cases lengths
    | cons slug slugs =>
      rw [List.forall_mem_cons] at h
      exact .cons (h.1 slug) (ih (Nat.succ.inj lengths) h.2)

/-- There is one header for each remote type, in order. -/
theorem forall₂_archiveHeaders [Support]
    {P : Text → Artifact → Prop} (t : Table)
    (h : ∀ remote ∈ t.header.remoteTypes,
        ∀ slug, P remote.spelling (archiveHeader t ⟨remote.spelling, slug⟩)) :
    List.Forall₂ (fun remote a => P remote.spelling a) t.header.remoteTypes
      (archiveHeaders t) := by
  rw [← List.forall₂_map_left_iff]
  exact forall₂_zipWith (length_distinctSlugsFrom [] _)
    (List.forall_mem_map.mpr h)

end Adapter
end MirrorAdapter
