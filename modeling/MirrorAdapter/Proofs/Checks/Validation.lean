import MirrorAdapter.Proofs.Checks.FieldNames

/-!
# Checks of specifications

Each check reports on its own: a missing remote type, remote types with the
key of an earlier one, a flag without its getter, a converter that is no
class. What one check reports does not depend on what the others find, so each
count is exact, and there is a table iff all of them are zero.
-/
namespace MirrorAdapter
namespace Mapping

open Diagnostic (Kind)
open Repetition (repeatPositions length_repeatPositions)

/-! ## What there is to report -/

/-- The keys of the remote types. -/
def Header.remoteKeys (h : Header) : List Text :=
  h.remoteTypes.map (TypeSpelling.key ·.spelling)

/-- The flag is given without the getter it belongs to. -/
def Field.isOwnedWithoutGetter (f : Field) : Bool :=
  f.directives.getterOwned && f.directives.getter.isNone

/-- The converter is not the identity, and its spelling is surely that of no
class. -/
def Field.hasNonClassConverter (f : Field) : Bool :=
  f.converter.kind != .identity && TypeSpelling.isNonClass f.converter.spelling

/-- The kinds of reports that the checks make. -/
def checkedKinds : List Kind :=
  [.missingRemoteType, .duplicateRemoteType, .getterOwnedWithoutGetter,
    .ambiguousConversion]

/-- The outcome of checking a specification: how many reports each check makes
and what they are about. -/
structure Spec.Checked (s : Spec) (o : Outcome ValidationError Table) :
    Prop where
  missing_count :
    o.log.count .missingRemoteType = if s.header.remoteTypes = [] then 1 else 0
  missing : ∀ d ∈ o.log, d.kind = .missingRemoteType →
    Concerns (.mirror s.header.qualifiedName) s.header.location d
  repeated_count : o.log.count .duplicateRemoteType =
    s.header.remoteTypes.length - s.header.remoteKeys.toFinset.card
  /-- A remote type is reported that has the key of an earlier one, together
  with the first of that key. -/
  repeated :
    List.Forall₂ (fun j d => ∃ r first, s.header.remoteTypes[j]? = some r ∧
            s.header.remoteTypes.find? (TypeSpelling.key ·.spelling ==
                TypeSpelling.key r.spelling) = some first ∧
            Concerns (.mirror s.header.qualifiedName) r.location d ∧
            first.location.pointer "first" <:+ d.message)
      (repeatPositions s.header.remoteKeys)
      (o.log.filter (·.kind == .duplicateRemoteType))
  owned :
    List.Forall₂ (fun f d => Concerns (.field s.header.qualifiedName f.name)
            f.directives.getterOwnedLocation d)
      (s.fields.filter Field.isOwnedWithoutGetter)
      (o.log.filter (·.kind == .getterOwnedWithoutGetter))
  nonClass : List.Forall₂ (fun f d => Concerns
            (.field s.header.qualifiedName f.name) f.converter.location d)
      (s.fields.filter Field.hasNonClassConverter)
      (o.log.filter (·.kind == .ambiguousConversion))
  nothing_else : ∀ d ∈ o.log, d.severity = .error ∧ d.kind ∈ checkedKinds
  table_iff :
    (∃ t, o.result = .ok t) ↔ ∀ kind ∈ checkedKinds, o.log.count kind = 0
  table : ∀ t, o.result = .ok t →
      t.header = s.header ∧ t.entries.map (·.field) = s.fields

/-! ## Faults by kind -/

/-- Faults that are all of one kind are found under it and under no other. -/
theorem filter_kind_of_forall {faults : List (Fault × Location)} {kind : Kind}
    (h : ∀ found ∈ faults, found.1.kind = kind) (other : Kind) :
    faults.filter (·.1.kind == other) =
      if kind = other then faults else [] := by
  split
  case isTrue same =>
    subst same
    exact List.filter_eq_self.mpr fun found member => by simp [h found member]
  case isFalse different =>
    exact List.filter_eq_nil_iff.mpr
      fun found member => by simp [h found member, different]

theorem kind_of_mem_ite {condition : Bool}
    {fault : Fault} {location : Location} :
    ∀ found ∈ if condition then [(fault, location)] else [],
      found.1.kind = fault.kind := by
  cases condition <;> simp

theorem Header.filter_kind_faults (h : Header) (kind : Kind) :
    h.faults.filter (·.1.kind == kind) =
      (if .missingRemoteType = kind then
        (if h.remoteTypes.isEmpty then [(.noRemoteType, h.location)] else [])
          else []) ++
      if .duplicateRemoteType = kind then
        (Repetition.repeats (TypeSpelling.key ·.spelling) h.remoteTypes).map
          fun (r, first) =>
            (.repeatedRemoteType r.spelling first.location, r.location)
      else [] := by
  unfold Header.faults
  rw [List.filter_append]
  congr 1
  · exact filter_kind_of_forall kind_of_mem_ite kind
  · refine filter_kind_of_forall (fun found member => ?_) kind
    obtain ⟨pair, -, rfl⟩ := List.mem_map.mp member
    rfl

/-- What is wrong with a field: the flag, and a conversion whatever its
converter is. -/
theorem Field.exists_faults_eq (f : Field) :
    ∃ conversion : Fault, conversion.kind = .ambiguousConversion ∧ f.faults =
        (if f.isOwnedWithoutGetter then
            [(.getterOwnedAlone, f.directives.getterOwnedLocation)] else []) ++
        if f.hasNonClassConverter then [(conversion, f.converter.location)]
        else [] := by
  unfold Field.faults hasNonClassConverter
  cases kind : f.converter.kind with
  | identity => exact ⟨.converterNotAClass [] [], rfl, rfl⟩
  | mirrorSelf =>
    refine ⟨.fieldTypeNotAClass (f.directives.source.elim [] (·.spelling))
        f.converter.spelling, rfl, ?_⟩
    cases TypeSpelling.isNonClass f.converter.spelling <;>
        cases f.directives.source <;> rfl
  | explicit =>
    refine ⟨.converterNotAClass f.converter.spelling f.valueType, rfl, ?_⟩
    cases TypeSpelling.isNonClass f.converter.spelling <;> rfl

theorem Field.filter_kind_faults (f : Field) (kind : Kind) :
    ∃ conversion : Fault,
      f.faults.filter (·.1.kind == kind) =
        (if .getterOwnedWithoutGetter = kind then
          (if f.isOwnedWithoutGetter then
              [(.getterOwnedAlone, f.directives.getterOwnedLocation)]
            else []) else []) ++
        if .ambiguousConversion = kind then
          (if f.hasNonClassConverter then [(conversion, f.converter.location)]
            else []) else [] := by
  obtain ⟨conversion, ambiguous, faults⟩ := f.exists_faults_eq
  refine ⟨conversion, ?_⟩
  rw [faults, List.filter_append, filter_kind_of_forall kind_of_mem_ite kind,
    filter_kind_of_forall kind_of_mem_ite kind, ambiguous]
  rfl

theorem Field.filter_kind_faults_eq_nil (f : Field)
    {kind : Kind} (owned : .getterOwnedWithoutGetter ≠ kind)
    (ambiguous : .ambiguousConversion ≠ kind) :
    f.faults.filter (·.1.kind == kind) = [] := by
  obtain ⟨conversion, faults⟩ := f.filter_kind_faults kind
  rw [faults, if_neg owned, if_neg ambiguous]
  rfl

/-! ## Reports by kind -/

theorem concerns_report (fault : Fault)
    (subject : Subject) (location : Location) :
    Concerns subject location (fault.report subject location) where
  severity := rfl
  location := rfl
  subject := by
    simp only [Fault.report, List.append_assoc]
    exact List.prefix_append _ _

/-- Of the reports those of one kind come from the faults of this kind, in
order. -/
theorem filter_kind_reports (s : Spec) (kind : Kind) :
    s.reports.filter (·.kind == kind) =
      (s.header.faults.filter (·.1.kind == kind)).map (fun (fault, location) =>
          fault.report (.mirror s.header.qualifiedName) location) ++
        s.fields.flatMap fun f => (f.faults.filter (·.1.kind == kind)).map
          fun (fault, location) =>
            fault.report (.field s.header.qualifiedName f.name) location := by
  simp only [Spec.reports, List.filter_append, List.filter_map,
    List.filter_flatMap]
  rfl

section
variable (s : Spec)

theorem filter_missing :
    s.reports.filter (·.kind == .missingRemoteType) =
      if s.header.remoteTypes.isEmpty then
        [Fault.noRemoteType.report (.mirror s.header.qualifiedName)
            s.header.location]
      else [] := by
  have fields (f : Field) :
      f.faults.filter (·.1.kind == .missingRemoteType) = [] :=
    f.filter_kind_faults_eq_nil (by decide) (by decide)
  rw [filter_kind_reports, Header.filter_kind_faults]
  simp only [fields]
  cases s.header.remoteTypes.isEmpty <;> simp

theorem filter_duplicates :
    s.reports.filter (·.kind == .duplicateRemoteType) =
      (Repetition.repeats (TypeSpelling.key ·.spelling)
          s.header.remoteTypes).map fun (r, first) =>
        (Fault.repeatedRemoteType r.spelling first.location).report
          (.mirror s.header.qualifiedName) r.location := by
  have fields (f : Field) :
      f.faults.filter (·.1.kind == .duplicateRemoteType) = [] :=
    f.filter_kind_faults_eq_nil (by decide) (by decide)
  rw [filter_kind_reports, Header.filter_kind_faults]
  simp [fields, Function.comp_def]

theorem filter_repeated :
    List.Forall₂ (fun j d => ∃ r first, s.header.remoteTypes[j]? = some r ∧
            s.header.remoteTypes.find? (TypeSpelling.key ·.spelling ==
                TypeSpelling.key r.spelling) = some first ∧
            Concerns (.mirror s.header.qualifiedName) r.location d ∧
            first.location.pointer "first" <:+ d.message)
      (repeatPositions s.header.remoteKeys)
      (s.reports.filter (·.kind == .duplicateRemoteType)) := by
  rw [filter_duplicates, List.forall₂_map_right_iff]
  refine (Repetition.forall₂_repeats (TypeSpelling.key ·.spelling)
      s.header.remoteTypes).imp ?_
  rintro j ⟨r, first⟩ ⟨here, found⟩
  refine ⟨r, first, here, found, concerns_report _ _ _, ?_⟩
  refine ⟨(Subject.mirror s.header.qualifiedName).render ++
    ": remote type " ++ r.spelling.quoted ++ " is already listed ", ?_⟩
  simp [Fault.report, Fault.message, Location.pointer, Text.ofString]

/-- Where each element yields one item or none, the items go with the elements
that yield one. -/
theorem forall₂_filter_flatMap {α β : Type} {p : α → Bool} {g : α → List β}
    {Q : α → β → Prop} (h : ∀ a, List.Forall₂ Q (if p a then [a] else []) (g a))
    (as : List α) : List.Forall₂ Q (as.filter p) (as.flatMap g) := by
  induction as with
  | nil => exact .nil
  | cons a as ih =>
    have whole :
        (a :: as).filter p = (if p a then [a] else []) ++ as.filter p := by
      rw [List.filter_cons]
      split <;> rfl
    rw [whole, List.flatMap_cons]
    exact List.rel_append (h a) ih

/-- Where a kind of fault is one of fields and a field has at most one, there
is one report for each field with it. -/
theorem forall₂_fieldReports {kind : Kind}
    {p : Field → Bool} {place : Field → Location}
    (header : s.header.faults.filter (·.1.kind == kind) = [])
    (fields : ∀ f : Field, ∃ fault : Fault, f.faults.filter (·.1.kind == kind) =
            if p f then [(fault, place f)] else []) :
    List.Forall₂
      (fun f d => Concerns (.field s.header.qualifiedName f.name) (place f) d)
      (s.fields.filter p) (s.reports.filter (·.kind == kind)) := by
  rw [filter_kind_reports, header]
  refine forall₂_filter_flatMap (fun f => ?_) s.fields
  obtain ⟨fault, faults⟩ := fields f
  rw [faults]
  cases p f with
  | true => exact .cons (concerns_report _ _ _) .nil
  | false => exact .nil

theorem filter_owned :
    List.Forall₂ (fun f d => Concerns (.field s.header.qualifiedName f.name)
            f.directives.getterOwnedLocation d)
      (s.fields.filter Field.isOwnedWithoutGetter)
      (s.reports.filter (·.kind == .getterOwnedWithoutGetter)) := by
  refine forall₂_fieldReports s (Header.filter_kind_faults s.header _)
    fun f => ?_
  obtain ⟨conversion, faults⟩ :=
    f.filter_kind_faults .getterOwnedWithoutGetter
  exact ⟨.getterOwnedAlone, faults.trans (List.append_nil _)⟩

theorem filter_nonClass :
    List.Forall₂ (fun f d => Concerns (.field s.header.qualifiedName f.name)
            f.converter.location d)
      (s.fields.filter Field.hasNonClassConverter)
      (s.reports.filter (·.kind == .ambiguousConversion)) :=
  forall₂_fieldReports s (Header.filter_kind_faults s.header _)
    fun f => f.filter_kind_faults .ambiguousConversion

/-- There are no other checks. -/
theorem kind_mem_checkedKinds {d : Diagnostic} (report : d ∈ s.reports) :
    d.kind ∈ checkedKinds := by
  by_contra other
  simp only [checkedKinds, List.mem_cons, List.not_mem_nil, or_false, not_or]
    at other
  obtain ⟨missing, repeated, owned, ambiguous⟩ := other
  have fields (f : Field) : f.faults.filter (·.1.kind == d.kind) = [] :=
    f.filter_kind_faults_eq_nil (Ne.symm owned) (Ne.symm ambiguous)
  have found : d ∈ s.reports.filter (·.kind == d.kind) :=
    List.mem_filter.mpr ⟨report, by simp⟩
  rw [filter_kind_reports, Header.filter_kind_faults,
    if_neg (Ne.symm missing), if_neg (Ne.symm repeated)]
    at found
  simp [fields] at found

end

/-! ## The outcome -/

theorem count_eq_length_filter (log : Log) (kind : Kind) :
    log.count kind = (log.filter (·.kind == kind)).length :=
  List.countP_eq_length_filter

/-- Every report that checking a specification makes, and when there is a
table. -/
theorem checked_validate (s : Spec) : s.Checked s.validate where
  missing_count := by
    rw [count_eq_length_filter]
    show (s.reports.filter _).length = _
    rw [filter_missing]
    cases s.header.remoteTypes <;> rfl
  missing := by
    intro d report kind
    have found : d ∈ s.reports.filter (·.kind == .missingRemoteType) :=
      List.mem_filter.mpr ⟨report, by simp [kind]⟩
    rw [filter_missing] at found
    split at found
    · rw [List.mem_singleton.mp found]
      exact concerns_report _ _ _
    · cases found
  repeated_count := by
    rw [count_eq_length_filter]
    show (s.reports.filter _).length = _
    have positions := length_repeatPositions s.header.remoteKeys
    rw [(filter_repeated s).length_eq] at positions
    have keys : s.header.remoteKeys.length = s.header.remoteTypes.length :=
      List.length_map _
    omega
  repeated := filter_repeated s
  owned := filter_owned s
  nonClass := filter_nonClass s
  nothing_else :=
    fun d report =>
      ⟨by simpa [Diagnostic.isError] using (honest_validate s).errors d report,
        kind_mem_checkedKinds s report⟩
  table_iff := by
    rw [(honest_validate s).ok_iff]
    constructor
    · intro silent kind _
      rw [silent]
      rfl
    · intro uncounted
      refine List.eq_nil_iff_forall_not_mem.mpr fun d report => ?_
      have none := uncounted d.kind (kind_mem_checkedKinds s report)
      rw [Log.count, List.countP_eq_zero] at none
      exact none d report (by simp)
  table := by
    intro t made
    obtain ⟨-, rfl⟩ := (result_validate s t).mp made
    exact ⟨rfl, by simp [Table.ofSpec, Entry.ofField, Function.comp_def]⟩

end Mapping
end MirrorAdapter
