import MirrorAdapter.Proofs.Checks.Entries
import MirrorAdapter.Proofs.Checks.Outcomes

/-!
# What is found on directives

Everything that is found on the directives of a type or a field is found on
one of its entries, and nothing is found on an entry if and only if it is
accepted (`Shares`). On a type the other entries have no say in that; on a
field an entry is not accepted either if an earlier one directs the same.
-/
namespace MirrorAdapter
namespace Directive

/-! ## Shares -/

/-- What is found on entries, in any order, is made up of a share for each
entry: nothing if and only if the entry is accepted behind those before it,
and nothing that is not in the entry. -/
inductive Shares (Accepted : List Entry → Entry → Prop) :
    List Entry → List Entry → List Finding → Prop
  | nil {before : List Entry} : Shares Accepted before [] []
  | cons {before rest : List Entry} {e : Entry}
      {share others found : List Finding} :
      (share = [] ↔ Accepted before e) → (∀ f ∈ share, e.Locates f.location) →
      Shares Accepted (before ++ [e]) rest others →
      found.Perm (share ++ others) → Shares Accepted before (e :: rest) found

namespace Shares

variable {Accepted : List Entry → Entry → Prop} {before rest : List Entry}
    {e : Entry}

/-- An entry that no item is read from is found with all that is read
first. -/
theorem fault {f : Finding} {found : List Finding}
    (refused : ¬Accepted before e) (located : e.Locates f.location)
    (h : Shares Accepted (before ++ [e]) rest found) :
    Shares Accepted before (e :: rest) (f :: found) := by
  have accepted : [f] = [] ↔ Accepted before e := by simpa using refused
  have inside : ∀ g ∈ [f], e.Locates g.location := by simpa using located
  exact .cons accepted inside h (.refl (f :: found))

/-- What is found on the item of an entry comes behind what is found on the
form of later ones. -/
theorem item {share forms others : List Finding}
    (accepted : share = [] ↔ Accepted before e)
    (located : ∀ f ∈ share, e.Locates f.location)
    (h : Shares Accepted (before ++ [e]) rest (forms ++ others)) :
    Shares Accepted before (e :: rest) (forms ++ (share ++ others)) :=
  .cons accepted located h (List.perm_append_comm_assoc forms share others)

theorem append {entries : List Entry} {found others : List Finding}
    (h : Shares Accepted before entries found)
    (h' : Shares Accepted (before ++ entries) rest others) :
    Shares Accepted before (entries ++ rest) (found ++ others) := by
  induction h generalizing others with
  | nil => simpa using h'
  | cons accepted located _ perm ih =>
    refine .cons accepted located (ih (by simpa using h')) ?_
    simpa using perm.append_right others

end Shares

/-! ## Types -/

/-- An entry of a type is accepted if it is a list of remote types. -/
def AcceptedOnType (_ : List Entry) (e : Entry) : Prop :=
  isItemOf .source e.tokens = true ∧
    ∃ argument, Form e.tokens argument ∧ ListsTypes argument

theorem typeItem_judged {e : Entry} {item : Item}
    (h : e.Holds item) (before : List Entry) :
    ((typeItem item).2 = [] ↔ AcceptedOnType before e) ∧
    ∀ f ∈ (typeItem item).2, e.Locates f.location := by
  unfold typeItem AcceptedOnType
  rw [← h.ofWord?_eq_some_iff]
  split
  · rename_i word
    obtain ⟨silent, located⟩ := readTypes_judged h
    refine ⟨?_, located⟩
    rw [silent]
    constructor
    · exact fun types => ⟨word, _, h.form, types⟩
    · rintro ⟨-, argument, form, types⟩
      rwa [h.form.argument_eq form]
  · rename_i key other word
    refine ⟨?_, by simpa using h.locates_location⟩
    have notSource : key ≠ .source := other
    simp [word, notSource]
  · rename_i word
    refine ⟨?_, by simpa using h.locates_location⟩
    simp [word]

theorem shares_typeItems {entries : List Entry}
    {read : List (Except Finding Item)}
    (h : List.Forall₂ Entry.Reads entries read) (before : List Entry) :
    Shares AcceptedOnType before entries (findings read ++
      (sound read).flatMap fun item => (typeItem item).2) := by
  induction h generalizing before with
  | nil => exact .nil
  | cons first _ ih =>
    cases first with
    | fault ill located =>
      exact .fault (fun ⟨_, argument, form, _⟩ => ill argument form)
        located (ih _)
    | item holds =>
      obtain ⟨accepted, located⟩ := typeItem_judged holds before
      exact .item accepted located (ih _)

theorem shares_typeAttributes (attributes : List Decl.Attribute)
    (before : List Entry) :
    Shares AcceptedOnType before (attributes.flatMap Entry.ofAttribute)
      (typeAttributes attributes).2 := by
  induction attributes generalizing before with
  | nil => exact .nil
  | cons a rest ih =>
    have first := shares_typeItems (Entry.reads_readItems a) before
    have whole := first.append (ih _)
    simpa [typeAttributes, List.flatMap_map] using whole

/-! ## Fields -/

/-- An entry of a field is accepted if it is a directive with a key that no
earlier entry directs. -/
def AcceptedOnField (before : List Entry) (e : Entry) : Prop :=
  ∃ key, Directs key e.tokens ∧ ∀ earlier ∈ before, ¬Directs key earlier.tokens

/-- Of a field those directives are set that some entry directs. -/
def FieldDirectives.Records (d : FieldDirectives) (entries : List Entry) :
    Prop :=
  ∀ key, d.has key = true ↔ ∃ e ∈ entries, Directs key e.tokens

theorem records_nil : ({} : FieldDirectives).Records [] := by
  intro key
  cases key <;> simp [FieldDirectives.has]

/-- What an entry adds is settled by the entries before it: what is found on
it, and what is set behind it. -/
theorem FieldDirectives.Records.added {d : FieldDirectives}
    {before : List Entry} (h : d.Records before) {e : Entry}
    {r : FieldDirectives × List Finding} (added : Added e d r) :
    ((r.2 = [] ↔ AcceptedOnField before e) ∧ ∀ f ∈ r.2, e.Locates f.location) ∧
    r.1.Records (before ++ [e]) := by
  have records {d' : FieldDirectives}
      (has : ∀ k, d'.has k = true ↔ d.has k = true ∨ Directs k e.tokens) :
      d'.Records (before ++ [e]) := by
    intro k
    rw [has, h k]
    simp [or_and_right, exists_or]
  cases added with
  | @set key d' directs new has =>
    refine ⟨⟨⟨fun _ => ⟨key, directs, fun earlier member again => ?_⟩,
          fun _ => rfl⟩, by simp⟩,
      records fun k => ?_⟩
    · rw [(h key).mpr ⟨earlier, member, again⟩] at new
      cases new
    · rw [has, Bool.or_eq_true, beq_iff_eq]
      refine or_congr_right ⟨?_, fun other => eq_of_isItemOf other.1 directs.1⟩
      rintro rfl
      exact directs
  | blamed set found located =>
    refine ⟨⟨⟨fun silent => absurd silent found, ?_⟩, located⟩,
      records fun k => ?_⟩
    · rintro ⟨key, directs, first⟩
      obtain ⟨earlier, member, again⟩ := (h key).mp (set key directs)
      exact absurd again (first earlier member)
    -- an entry that is blamed directs nothing, or what is set already
    · exact ⟨.inl, fun directed => directed.elim id (set k)⟩

theorem shares_fieldItems {entries : List Entry}
    {read : List (Except Finding Item)}
    (h : List.Forall₂ Entry.Reads entries read) {before : List Entry}
    {d : FieldDirectives} (records : d.Records before) :
    Shares AcceptedOnField before entries
      (findings read ++ (fieldItems d (sound read)).2) ∧
    (fieldItems d (sound read)).1.Records (before ++ entries) := by
  induction h generalizing before d with
  | nil =>
    rw [List.append_nil]
    exact ⟨.nil, records⟩
  | @cons e _ _ _ first _ ih =>
    rw [List.append_cons]
    cases first with
    | @fault f ill located =>
      have added : Added e d (d, [f]) :=
        .blamed (fun key directs =>
              absurd directs.2 (by simpa using fun a form _ => ill a form))
          (by simp) (by simpa using located)
      obtain ⟨⟨accepted, -⟩, behind⟩ := records.added added
      obtain ⟨shares, set⟩ := ih behind
      exact ⟨.fault (by simpa using accepted) located shares, set⟩
    | item holds =>
      obtain ⟨⟨accepted, located⟩, behind⟩ :=
        records.added (added_fieldItem holds d)
      obtain ⟨shares, set⟩ := ih behind
      exact ⟨.item accepted located shares, set⟩

theorem shares_fieldAttributes (attributes : List Decl.Attribute)
    {before : List Entry} {d : FieldDirectives} (records : d.Records before) :
    Shares AcceptedOnField before (attributes.flatMap Entry.ofAttribute)
      (fieldAttributes d attributes).2 := by
  induction attributes generalizing before d with
  | nil => exact .nil
  | cons a rest ih =>
    obtain ⟨first, behind⟩ :=
      shares_fieldItems (Entry.reads_readItems a) records
    exact first.append (ih behind)

/-! ## Outcomes -/

/-- A check fails if and only if it reports something, and all its reports are
errors in the syntax of directives. -/
structure Answers {ε α : Type} (o : Outcome ε α) : Prop where
  errors : ∀ d ∈ o.log, d.severity = .error ∧ d.kind = .directiveSyntax
  fails : (∃ e, o.result = .error e) ↔ o.log ≠ []

theorem answers_of_honest {ε α : Type} {o : Outcome ε α} (h : o.Honest)
    (syntaxOnly : ∀ d ∈ o.log, d.kind = .directiveSyntax) : Answers o where
  errors :=
    fun d report =>
      ⟨by simpa [Diagnostic.isError] using h.errors d report,
        syntaxOnly d report⟩
  fails := by
    rw [ne_eq, ← h.ok_iff]
    cases o.result <;> simp

theorem answers_conclude {α : Type} (subject : Subject)
    (error : Error) (value : α) (found : List Finding) :
    Answers (conclude subject error value found) := by
  refine answers_of_honest (honest_conclude subject error value found)
    fun d report => ?_
  obtain ⟨finding, -, rfl⟩ := List.mem_map.mp report
  rfl

theorem log_ofMirror (m : Decl.Mirror) :
    (ofMirror m).log =
      (ofType m).log ++ m.fields.flatMap fun f => (ofField m f).log := by
  simp [ofMirror, List.flatMap_map]

theorem answers_ofMirror (m : Decl.Mirror) : Answers (ofMirror m) := by
  refine answers_of_honest (honest_ofMirror m) fun d report => ?_
  rw [log_ofMirror] at report
  rcases List.mem_append.mp report with type | fields
  · exact ((answers_conclude _ _ _ _).errors d type).2
  · obtain ⟨f, -, inside⟩ := List.mem_flatMap.mp fields
    exact ((answers_conclude _ _ _ _).errors d inside).2

/-- Reading directives fails if and only if something is reported, errors in
their syntax only. What is reported of a type or a field is made up of a share
for each entry of its attributes, of at least one report unless the entry is
accepted; and what is reported of a declaration is what is reported of its
type and then of its fields, in order. -/
theorem directives_reported (m : Decl.Mirror) :
    (Answers (ofType m) ∧ (∀ f, Answers (ofField m f)) ∧ Answers (ofMirror m)) ∧
    (∃ found, Shares AcceptedOnType []
          (m.attributes.flatMap Entry.ofAttribute) found ∧
        (ofType m).log = found.map (·.report (.mirror m.qualifiedName))) ∧
    (∀ f : Decl.Field, ∃ found, Shares AcceptedOnField []
            (f.attributes.flatMap Entry.ofAttribute) found ∧
          (ofField m f).log =
            found.map (·.report (.field m.qualifiedName f.name))) ∧
    (ofMirror m).log =
      (ofType m).log ++ m.fields.flatMap fun f => (ofField m f).log := by
  refine ⟨⟨?_, fun f => ?_, answers_ofMirror m⟩, ?_, fun f => ?_,
    log_ofMirror m⟩
  · exact answers_conclude _ _ _ _
  · exact answers_conclude _ _ _ _
  · exact ⟨_, shares_typeAttributes m.attributes [], rfl⟩
  · exact ⟨_, shares_fieldAttributes f.attributes records_nil, rfl⟩

end Directive
end MirrorAdapter
