import Mathlib.Data.List.Forall2
import MirrorAdapter.Mapping.Basic

/-!
# Tables that agree

Two tables agree if they do not differ in anything that is to be told of them,
their names and spellings told in some way. How other texts are told does not
matter then, so where both are told as they are, they are the same.
-/
namespace MirrorAdapter

/-- Two locations differ in nothing that is told of them, if texts are told
as `shown` says. -/
structure Location.Agrees (shown : Text → Text) (l m : Location) : Prop where
  file : shown l.file = shown m.file
  line : l.line = m.line
  column : l.column = m.column

theorem Location.Agrees.congr {shown shown' : Text → Text} {l m : Location}
    (first : shown l.file = shown' l.file)
    (second : shown m.file = shown' m.file) (h : l.Agrees shown m) :
    l.Agrees shown' m :=
  { h with file := first.symm.trans (h.file.trans second) }

namespace Mapping

/-- The spelling of a reference that may be absent, as `shown` says. -/
def spelled (shown : Text → Text) (r : Option Reference) : Option Text :=
  r.map fun r => shown r.spelling

/-- What is told of a field, texts as `shown` says: two entries differ in none
of it. -/
structure Entry.Agrees (shown : Text → Text) (e f : Entry) : Prop where
  name : shown e.field.name = shown f.field.name
  location : e.field.location.Agrees shown f.field.location
  type : shown e.field.type.spelling = shown f.field.type.spelling
  valueType : shown e.field.valueType = shown f.field.valueType
  converterKind : e.field.converter.kind = f.field.converter.kind
  converterSpelling :
    shown e.field.converter.spelling = shown f.field.converter.spelling
  access : e.access = f.access
  reconstructable : e.reconstructable = f.reconstructable
  source : spelled shown e.field.directives.source =
    spelled shown f.field.directives.source
  via : spelled shown e.field.directives.via =
    spelled shown f.field.directives.via
  getter : spelled shown e.field.directives.getter =
    spelled shown f.field.directives.getter
  getterOwned : e.field.directives.getterOwned = f.field.directives.getterOwned

/-- What is told of a mirror type, texts as `shown` says: two tables differ in
none of it, field by field. -/
structure Table.Agrees (shown : Text → Text) (t u : Table) : Prop where
  name : shown t.header.qualifiedName = shown u.header.qualifiedName
  sourceFile : shown t.header.sourceFile = shown u.header.sourceFile
  location : t.header.location.Agrees shown u.header.location
  templateParams :
    (t.header.templateParams.map fun p => shown p.declaration) =
      u.header.templateParams.map fun p => shown p.declaration
  remoteTypes : (t.header.remoteTypes.map fun r => shown r.spelling) =
    u.header.remoteTypes.map fun r => shown r.spelling
  fullyReconstructable : t.fullyReconstructable = u.fullyReconstructable
  entries : List.Forall₂ (Entry.Agrees shown) t.entries u.entries

/-- All texts that are told of a field. -/
def Entry.texts (e : Entry) : List Text :=
  [e.field.name, e.field.location.file, e.field.type.spelling,
    e.field.valueType, e.field.converter.spelling] ++
  ([e.field.directives.source, e.field.directives.via,
    e.field.directives.getter].flatMap Option.toList).map (·.spelling)

/-- All texts that are told of a mirror type. -/
def Table.texts (t : Table) : List Text :=
  [t.header.qualifiedName, t.header.sourceFile, t.header.location.file] ++
  t.header.templateParams.map (·.declaration) ++
  t.header.remoteTypes.map (·.spelling) ++ t.entries.flatMap Entry.texts

section
variable {shown shown' : Text → Text}

theorem forall₂_of_mem {α : Type} {R S : α → α → Prop} {xs ys : List α}
    (h : ∀ x ∈ xs, ∀ y ∈ ys, R x y → S x y) (pairs : List.Forall₂ R xs ys) :
    List.Forall₂ S xs ys := by
  induction pairs with
  | nil => exact .nil
  | cons pair _ ih =>
    exact .cons (h _ (.head _) _ (.head _) pair)
      (ih fun x inX y inY => h x (.tail _ inX) y (.tail _ inY))

theorem spelled_congr {r : Option Reference}
    (same : ∀ ref ∈ r, shown ref.spelling = shown' ref.spelling) :
    spelled shown r = spelled shown' r :=
  Option.map_congr same

/-- How other texts are shown than those of the two entries does not
matter. -/
theorem Entry.Agrees.congr {e f : Entry}
    (first : ∀ s ∈ e.texts, shown s = shown' s)
    (second : ∀ s ∈ f.texts, shown s = shown' s) (h : e.Agrees shown f) :
    e.Agrees shown' f := by
  have text {a b : Text} (inE : a ∈ e.texts) (inF : b ∈ f.texts)
      (alike : shown a = shown b) : shown' a = shown' b :=
    (first a inE).symm.trans (alike.trans (second b inF))
  have reference {a b : Option Reference} (inE : ∀ r ∈ a, r.spelling ∈ e.texts)
      (inF : ∀ r ∈ b, r.spelling ∈ f.texts)
      (alike : spelled shown a = spelled shown b) :
      spelled shown' a = spelled shown' b := by
    rw [← spelled_congr fun r inside => first _ (inE r inside), alike,
      spelled_congr fun r inside => second _ (inF r inside)]
  exact
    { h with
      name := text (by simp [texts]) (by simp [texts]) h.name
      location := h.location.congr (first _ (by simp [texts]))
        (second _ (by simp [texts]))
      type := text (by simp [texts]) (by simp [texts]) h.type
      valueType := text (by simp [texts]) (by simp [texts]) h.valueType
      converterSpelling :=
        text (by simp [texts]) (by simp [texts]) h.converterSpelling
      source := reference (by simp +contextual [texts])
        (by simp +contextual [texts]) h.source
      via := reference (by simp +contextual [texts])
        (by simp +contextual [texts]) h.via
      getter := reference (by simp +contextual [texts])
        (by simp +contextual [texts]) h.getter }

theorem Table.declaration_mem_texts (t : Table) :
    ∀ p ∈ t.header.templateParams, p.declaration ∈ t.texts := fun _ inside =>
  List.mem_append_left _ (List.mem_append_left _
    (List.mem_append_right _ (List.mem_map_of_mem inside)))

theorem Table.remoteType_mem_texts (t : Table) :
    ∀ r ∈ t.header.remoteTypes, r.spelling ∈ t.texts := fun _ inside =>
  List.mem_append_left _ (List.mem_append_right _ (List.mem_map_of_mem inside))

theorem Table.Agrees.congr {t u : Table}
    (first : ∀ s ∈ t.texts, shown s = shown' s)
    (second : ∀ s ∈ u.texts, shown s = shown' s) (h : t.Agrees shown u) :
    t.Agrees shown' u := by
  have text {a b : Text} (inT : a ∈ t.texts) (inU : b ∈ u.texts)
      (alike : shown a = shown b) : shown' a = shown' b :=
    (first a inT).symm.trans (alike.trans (second b inU))
  have all {α : Type} {f : α → Text} {xs ys : List α}
      (inT : ∀ x ∈ xs, f x ∈ t.texts) (inU : ∀ y ∈ ys, f y ∈ u.texts)
      (alike : (xs.map fun x => shown (f x)) = ys.map fun y => shown (f y)) :
      (xs.map fun x => shown' (f x)) = ys.map fun y => shown' (f y) := by
    rw [← List.map_congr_left fun x inside => first _ (inT x inside), alike,
      List.map_congr_left fun y inside => second _ (inU y inside)]
  have entries : List.Forall₂ (Entry.Agrees shown') t.entries u.entries := by
    refine forall₂_of_mem (fun e inT f inU agree => agree.congr ?_ ?_) h.entries
    · exact fun s told => first s (List.mem_append_right _
        (List.mem_flatMap.mpr ⟨e, inT, told⟩))
    · exact fun s told => second s (List.mem_append_right _
        (List.mem_flatMap.mpr ⟨f, inU, told⟩))
  exact
    { h with
      name := text (by simp [texts]) (by simp [texts]) h.name
      sourceFile := text (by simp [texts]) (by simp [texts]) h.sourceFile
      location := h.location.congr (first _ (by simp [texts]))
        (second _ (by simp [texts]))
      templateParams :=
        all t.declaration_mem_texts u.declaration_mem_texts h.templateParams
      remoteTypes :=
        all t.remoteType_mem_texts u.remoteType_mem_texts h.remoteTypes
      entries }

end

end Mapping
end MirrorAdapter
