import MirrorAdapter.Compile
import MirrorAdapter.Proofs.Repetition
import Mathlib.Data.List.Forall2

/-!
# Outcomes of the checks

Every check that a declaration goes through reports errors only, and fails iff
it reports one (`Outcome.Honest`). So a declaration has a table iff nothing
was reported about it; all its stages have succeeded then (`Stages`).
-/
namespace MirrorAdapter

open Decl (File Mirror)

/-- All reports of a check are errors, and it succeeds iff there are none. -/
structure Outcome.Honest {ε α : Type} (o : Outcome ε α) : Prop where
  errors : ∀ d ∈ o.log, d.isError = true
  ok_iff : (∃ a, o.result = .ok a) ↔ o.log = []

theorem Outcome.Honest.ok_or_error {ε α : Type}
    {o : Outcome ε α} (h : o.Honest) :
    (∃ a, o.result = .ok a ∧ o.log = []) ∨
    ∃ e, o.result = .error e ∧ o.log ≠ [] := by
  cases hresult : o.result with
  | ok a => exact .inl ⟨a, rfl, h.ok_iff.mp ⟨a, hresult⟩⟩
  | error e =>
    refine .inr ⟨e, rfl, fun silent => ?_⟩
    obtain ⟨a, ok⟩ := h.ok_iff.mpr silent
    simp [hresult] at ok

theorem eq_ok_of_mem_toOption {ε α : Type} {result : Except ε α} {a : α}
    (h : a ∈ result.toOption) : result = .ok a := by
  cases result with
  | error e => cases h
  | ok b => exact congrArg _ (Option.some.inj h)

theorem mapM_eq_ok_iff {ε α β : Type}
    (f : α → Except ε β) (as : List α) (bs : List β) :
    as.mapM f = .ok bs ↔ List.Forall₂ (fun a b => f a = .ok b) as bs := by
  induction as generalizing bs with
  | nil => simp [pure, Except.pure, eq_comm]
  | cons a as ih =>
    rw [List.mapM_cons, List.forall₂_cons_left_iff]
    simp only [← ih]
    cases f a with
    | error e => simp [bind, Except.bind]
    | ok b =>
      cases as.mapM f <;> simp [bind, Except.bind, pure, Except.pure, eq_comm]

/-- A list of checks succeeds iff each of them does. -/
theorem exists_mapM_eq_ok_iff {ε α β : Type}
    (f : α → Except ε β) (as : List α) :
    (∃ bs, as.mapM f = .ok bs) ↔ ∀ a ∈ as, ∃ b, f a = .ok b := by
  induction as with
  | nil => simp [pure, Except.pure]
  | cons a as ih =>
    rw [List.forall_mem_cons, ← ih, List.mapM_cons]
    cases f a with
    | error e => simp [bind, Except.bind]
    | ok b => cases as.mapM f <;> simp [bind, Except.bind, pure, Except.pure]

/-! ## Directives -/

namespace Directive

theorem honest_conclude {α : Type} (subject : Subject)
    (error : Error) (value : α) (found : List Finding) :
    (conclude subject error value found).Honest where
  errors := by
    intro d report
    obtain ⟨finding, -, rfl⟩ := List.mem_map.mp report
    rfl
  ok_iff := by cases found <;> simp [conclude]

theorem honest_ofType (m : Mirror) : (ofType m).Honest :=
  honest_conclude _ _ _ _

theorem honest_ofField (m : Mirror) (f : Decl.Field) :
    (ofField m f).Honest :=
  honest_conclude _ _ _ _

theorem result_ofMirror (m : Mirror) (model : Model) :
    (ofMirror m).result = .ok model ↔ (ofType m).result = .ok model.type ∧
      List.Forall₂ (fun f d => (ofField m f).result = .ok d) m.fields
        model.fields := by
  rw [← mapM_eq_ok_iff, ofMirror, List.mapM_map]
  dsimp only [Function.comp_def]
  cases (ofType m).result with
  | error e => simp
  | ok type =>
    cases m.fields.mapM fun f => (ofField m f).result with
    | error e => simp
    | ok fields =>
      simp only [Except.ok.injEq]
      exact ⟨fun h => by simp [← h], fun h => by rw [h.1, h.2]⟩

theorem honest_ofMirror (m : Mirror) : (ofMirror m).Honest where
  errors := by
    intro d report
    rcases List.mem_append.mp report with type | fields
    · exact (honest_ofType m).errors d type
    · obtain ⟨outcome, found, inside⟩ := List.mem_flatMap.mp fields
      obtain ⟨f, -, rfl⟩ := List.mem_map.mp found
      exact (honest_ofField m f).errors d inside
  ok_iff := by
    have log :
        (ofMirror m).log = [] ↔
          (ofType m).log = [] ∧ ∀ f ∈ m.fields, (ofField m f).log = [] := by
      simp [ofMirror]
    simp only [log, ← (honest_ofType m).ok_iff,
      ← (honest_ofField m _).ok_iff, ← exists_mapM_eq_ok_iff]
    simp only [result_ofMirror, ← mapM_eq_ok_iff]
    constructor
    · rintro ⟨model, type, fields⟩
      exact ⟨⟨_, type⟩, _, fields⟩
    · rintro ⟨⟨type, htype⟩, fields, hfields⟩
      exact ⟨⟨type, fields⟩, htype, hfields⟩

/-- There is one entry of directives for each field. -/
theorem length_fields_of_ofMirror {m : Mirror}
    {model : Model} (h : (ofMirror m).result = .ok model) :
    model.fields.length = m.fields.length :=
  ((result_ofMirror m model).mp h).2.length_eq.symm

end Directive

/-! ## Specifications and tables -/

namespace Mapping

theorem result_build {file : File} {m : Mirror} {model : Directive.Model}
    (length : model.fields.length = m.fields.length) (s : Spec) :
    (Spec.build file m model).result = .ok s ↔
      (m.fields.map (·.name)).Nodup ∧
        s = { header := .ofMirror file m model.type
              fields := List.zipWith Field.ofDecl m.fields model.fields } := by
  rw [← Repetition.repeats_eq_nil_iff, Spec.build,
    if_neg (not_not_intro length)]
  cases Repetition.repeats (fun f : Decl.Field => f.name)
    m.fields <;> simp [eq_comm]

theorem honest_build (file : File) {m : Mirror} {model : Directive.Model}
    (length : model.fields.length = m.fields.length) :
    (Spec.build file m model).Honest where
  errors := by
    intro d report
    rw [Spec.build, if_neg (not_not_intro length)] at report
    obtain ⟨pair, -, rfl⟩ := List.mem_map.mp report
    rfl
  ok_iff := by
    rw [Spec.build, if_neg (not_not_intro length)]
    cases Repetition.repeats (fun f : Decl.Field => f.name) m.fields <;> simp

theorem honest_validate (s : Spec) : s.validate.Honest where
  errors := by
    intro d report
    rcases List.mem_append.mp report with type | fields
    · obtain ⟨fault, -, rfl⟩ := List.mem_map.mp type
      rfl
    · obtain ⟨f, -, inside⟩ := List.mem_flatMap.mp fields
      obtain ⟨fault, -, rfl⟩ := List.mem_map.mp inside
      rfl
  ok_iff := by
    unfold Spec.validate
    cases s.reports <;> simp

/-- Only what is at fault is reported. -/
theorem reports_eq_nil_iff (s : Spec) :
    s.reports = [] ↔ s.header.faults = [] ∧ ∀ f ∈ s.fields, f.faults = [] := by
  simp only [Spec.reports, List.append_eq_nil_iff, List.map_eq_nil_iff,
    List.flatMap_eq_nil_iff]

theorem result_validate (s : Spec) (t : Table) :
    s.validate.result = .ok t ↔ s.reports = [] ∧ t = .ofSpec s := by
  unfold Spec.validate
  cases s.reports <;> simp [eq_comm]

end Mapping

/-! ## All stages -/

open Mapping (Spec Table)

theorem isError_of_mem_keywordReports {m : Mirror} {d : Diagnostic}
    (h : d ∈ keywordReports m) : d.isError = true := by
  -- Wherever a name stands, it is reported in the one way or not at all.
  have named {location : Location} {what name : Text}
      (report :
        d ∈ if Name.isKeyword name then [keywordReport location what name]
          else []) :
      d.isError = true := by
    split at report
    · rw [List.mem_singleton.mp report]
      rfl
    · cases report
  simp only [keywordReports, List.mem_append, List.mem_flatMap] at h
  obtain (mirror | ⟨component, -, scope⟩) | ⟨f, -, field⟩ := h
  · exact named mirror
  · exact named scope
  · exact named field

/-- What the stages of a declaration yield where all of them succeed. -/
structure Stages (file : File) (m : Mirror) (model : Directive.Model)
    (spec : Spec) (t : Table) : Prop where
  keywords : keywordReports m = []
  directives : (Directive.ofMirror m).result = .ok model
  build : (Spec.build file m model).result = .ok spec
  validate : spec.validate.result = .ok t

namespace Stages

variable {file : File} {m : Mirror} {model : Directive.Model} {spec : Spec}
    {t : Table}

theorem spec_eq (h : Stages file m model spec t) :
    spec = { header := .ofMirror file m model.type
             fields :=
             List.zipWith Mapping.Field.ofDecl m.fields model.fields } :=
  ((Mapping.result_build (Directive.length_fields_of_ofMirror h.directives)
        spec).mp h.build).2

theorem nodup_names (h : Stages file m model spec t) :
    (m.fields.map (·.name)).Nodup :=
  ((Mapping.result_build (Directive.length_fields_of_ofMirror h.directives)
        spec).mp h.build).1

theorem reports_eq_nil (h : Stages file m model spec t) : spec.reports = [] :=
  ((Mapping.result_validate spec t).mp h.validate).1

theorem table_eq (h : Stages file m model spec t) : t = .ofSpec spec :=
  ((Mapping.result_validate spec t).mp h.validate).2

theorem header_eq (h : Stages file m model spec t) :
    t.header = .ofMirror file m model.type := by
  rw [h.table_eq, h.spec_eq]
  rfl

end Stages

/-- A declaration goes through all stages without a report, or has no table
and reports that are all errors. -/
theorem tableOf_cases (file : File) (m : Mirror) :
    (∃ model spec t,
        Stages file m model spec t ∧ tableOf file m = (some t, [])) ∨
    ∃ log, tableOf file m = (none, log) ∧ log ≠ [] ∧
      ∀ d ∈ log, d.isError = true := by
  unfold tableOf
  dsimp only
  by_cases keywords : keywordReports m = []
  case neg =>
    have found : (keywordReports m).isEmpty = false := by simpa using keywords
    exact .inr
      ⟨_, by simp [found], keywords, fun d => isError_of_mem_keywordReports⟩
  have directives := Directive.honest_ofMirror m
  obtain ⟨model, hmodel, first⟩ | ⟨e, hmodel, reported⟩ :=
    directives.ok_or_error
  case inr =>
    exact .inr ⟨_, by simp [keywords, hmodel], reported, directives.errors⟩
  have build :=
    Mapping.honest_build file (Directive.length_fields_of_ofMirror hmodel)
  obtain ⟨spec, hspec, second⟩ | ⟨e, hspec, reported⟩ := build.ok_or_error
  case inr =>
    exact .inr
      ⟨_, by simp [keywords, hmodel, first, hspec], reported, build.errors⟩
  have validate := Mapping.honest_validate spec
  obtain ⟨t, htable, third⟩ | ⟨e, htable, reported⟩ := validate.ok_or_error
  case inr =>
    exact .inr ⟨_,
      by simp [keywords, hmodel, first, hspec, second, htable, Except.toOption],
      reported, validate.errors⟩
  exact .inl ⟨model, spec, t, ⟨keywords, hmodel, hspec, htable⟩,
    by simp [keywords, hmodel, first, hspec, second, htable, third,
      Except.toOption]⟩

end MirrorAdapter
