import MirrorAdapter.Decl.Parsed
import MirrorAdapter.Proofs.Grammar.Basic

/-!
# What a reading step can do

Three facts tie a reading step to the stretches of tokens it accepts, and each
is kept by putting steps one after another:

* `Parsed.Honest`: the step gives up iff it reports an error;
* `Parsed.Consumes`: where it yields a value, what it took is of the accepted
  shape;
* `Reads`: it takes a stretch of that shape whatever comes after it, up to a
  condition on what follows.

The first two give soundness with respect to a grammar, the first and the last
completeness.
-/
namespace MirrorAdapter

/-! ## Reports without errors -/

namespace Log

/-- None of the reports is an error. -/
def Clean (log : Log) : Prop := log.hasErrors = false

@[simp] theorem clean_nil : Clean [] := rfl

@[simp] theorem clean_append {a b : Log} :
    Clean (a ++ b) ↔ Clean a ∧ Clean b := by
  simp [Clean, hasErrors_append]

theorem clean_singleton {d : Diagnostic} (h : d.severity ≠ .error) :
    Clean [d] := by
  simp [Clean, hasErrors, Diagnostic.isError, h]

end Log

namespace Decl

theorem Fault.isError_report {fault : Fault} (h : fault.severity = .error)
    (location : Location) : (fault.report location).isError = true := by
  simp [Fault.report, Diagnostic.isError, h]

theorem not_clean_report {fault : Fault} (h : fault.severity = .error)
    (location : Location) : ¬Log.Clean [fault.report location] := by
  simp [Log.Clean, Log.hasErrors, fault.isError_report h location]

namespace Parsed

variable {α β : Type}

/-! ## Giving up and reporting -/

/-- A step gives up iff it reports an error. -/
def Honest (p : Parsed α) : Prop := p.log.hasErrors = p.value.isNone

theorem honest_done (value : α) (rest : List Token) :
    (done value rest).Honest := rfl

theorem honest_giveUp (rest : List Token) {report : Diagnostic}
    (h : report.isError = true) : (giveUp rest report : Parsed α).Honest := by
  simp [Honest, giveUp, Log.hasErrors, h]

theorem Honest.andThen {p : Parsed α} {second : α → List Token → Parsed β}
    (h : p.Honest) (h' : ∀ value rest, (second value rest).Honest) :
    (p.andThen second).Honest := by
  obtain ⟨value, rest, log⟩ := p
  cases value with
  | none => exact h
  | some value =>
    have first : log.hasErrors = false := h
    have next := h' value rest
    simp only [Honest] at next
    simp [Honest, Parsed.andThen, Log.hasErrors_append, first, next]

theorem Honest.clean_iff {p : Parsed α} (h : p.Honest) :
    p.log.Clean ↔ ∃ value, p.value = some value := by
  simp only [Honest] at h
  cases hv : p.value <;> simp [Log.Clean, h, hv]

/-! ## What is consumed -/

/-- A step that yields a value has taken a stretch which is related to the
value. -/
def Consumes (p : Parsed α) (tokens : List Token)
    (shape : α → List Token → Prop) : Prop :=
  ∀ value,
    p.value = some value → ∃ eaten, tokens = eaten ++ p.rest ∧ shape value eaten

theorem consumes_giveUp (tokens rest : List Token)
    (report : Diagnostic) (shape : α → List Token → Prop) :
    (giveUp rest report : Parsed α).Consumes tokens shape := by
  intro value h
  simp [giveUp] at h

theorem consumes_done {value : α} {rest : List Token}
    {shape : α → List Token → Prop} (eaten : List Token)
    (h : shape value eaten) :
    (done value rest).Consumes (eaten ++ rest) shape := by
  intro found same
  cases same
  exact ⟨eaten, rfl, h⟩

theorem consumes_nothing {value : α} {tokens : List Token}
    {shape : α → List Token → Prop} (h : shape value []) :
    (done value tokens).Consumes tokens shape :=
  consumes_done [] h

theorem Consumes.mono {p : Parsed α} {tokens : List Token}
    {shape shape' : α → List Token → Prop} (h : p.Consumes tokens shape)
    (weaken : ∀ value eaten, shape value eaten → shape' value eaten) :
    p.Consumes tokens shape' := by
  intro value found
  obtain ⟨eaten, whole, good⟩ := h value found
  exact ⟨eaten, whole, weaken value eaten good⟩

/-- What a step takes behind some tokens, taken together with them. -/
theorem Consumes.after {p : Parsed α} {first tokens all : List Token}
    {shape whole : α → List Token → Prop}
    (h : p.Consumes tokens shape) (split : first ++ tokens = all)
    (extend : ∀ value eaten, shape value eaten → whole value (first ++ eaten)) :
    p.Consumes all whole := by
  intro value found
  obtain ⟨eaten, same, good⟩ := h value found
  refine ⟨first ++ eaten, ?_, extend value eaten good⟩
  rw [← split, List.append_assoc, ← same]

/-- Two steps one after another take two stretches one after another. -/
theorem Consumes.andThen {p : Parsed α} {second : α → List Token → Parsed β}
    {tokens : List Token} {shape : α → List Token → Prop}
    {whole : β → List Token → Prop} (h : p.Consumes tokens shape)
    (h' : ∀ value a rest, p.value = some value ∧ p.rest = rest →
        shape value a → (second value rest).Consumes rest
          fun result b => whole result (a ++ b)) :
    (p.andThen second).Consumes tokens whole := by
  intro result found
  obtain ⟨value, rest, log⟩ := p
  cases value with
  | none => simp [Parsed.andThen] at found
  | some value =>
    obtain ⟨a, first, good⟩ := h value rfl
    obtain ⟨b, tail, good'⟩ := h' value a rest ⟨rfl, rfl⟩ good result found
    refine ⟨a ++ b, ?_, good'⟩
    rw [first, List.append_assoc]
    exact congrArg _ tail

end Parsed

/-! ## What is read whatever follows -/

/-- The step takes the stretch, wherever the condition holds of what follows
it. What it yields and what it reports do not depend on that, and none of the
reports is an error. -/
def Reads {α : Type} (step : List Token → Parsed α) (eaten : List Token)
    (follows : List Token → Prop) : Prop :=
  ∃ value log, Log.Clean log ∧
    ∀ rest, follows rest → step (eaten ++ rest) = ⟨some value, rest, log⟩

section
variable {α β : Type}

theorem Reads.mono {step : List Token → Parsed α} {eaten : List Token}
    {follows follows' : List Token → Prop} (h : Reads step eaten follows)
    (stronger : ∀ rest, follows' rest → follows rest) :
    Reads step eaten follows' := by
  obtain ⟨value, log, clean, reads⟩ := h
  exact ⟨value, log, clean, fun rest hrest => reads rest (stronger rest hrest)⟩

theorem Reads.andThen {first : List Token → Parsed α}
    {second : α → List Token → Parsed β} {a b : List Token}
    {follows follows' : List Token → Prop} (ha : Reads first a follows)
    (hb : ∀ value, Reads (second value) b follows')
    (seam : ∀ rest, follows' rest → follows (b ++ rest)) :
    Reads (fun tokens => (first tokens).andThen second) (a ++ b) follows' := by
  obtain ⟨value, log, clean, reads⟩ := ha
  obtain ⟨value', log', clean', reads'⟩ := hb value
  refine ⟨value', log ++ log', by simp [clean, clean'], ?_⟩
  intro rest hrest
  simp only [List.append_assoc, reads (b ++ rest) (seam rest hrest),
    Parsed.andThen, reads' rest hrest]

/-- Putting the value into another form afterwards takes nothing more. -/
theorem Reads.andDone {first : List Token → Parsed α}
    {eaten : List Token} {follows : List Token → Prop}
    (h : Reads first eaten follows) (form : α → β) :
    Reads (fun tokens =>
          (first tokens).andThen fun value rest => .done (form value) rest)
      eaten follows := by
  obtain ⟨value, log, clean, reads⟩ := h
  refine ⟨form value, log, clean, ?_⟩
  intro rest hrest
  simp [reads rest hrest, Parsed.andThen, Parsed.done]

end

/-! ## Single tokens -/

section
variable (stop : Token)

theorem honest_blame {α : Type} {fault : Fault} (h : fault.severity = .error)
    (tokens : List Token) : (blame stop fault tokens : Parsed α).Honest :=
  Parsed.honest_giveUp tokens (fault.isError_report h _)

theorem honest_expect (kind : Token.Kind) {fault : Fault}
    (h : fault.severity = .error) (tokens : List Token) :
    (expect stop kind fault tokens).Honest := by
  unfold expect
  split
  · exact honest_blame stop h []
  · split
    · exact Parsed.honest_done _ _
    · exact honest_blame stop h _

theorem consumes_expect (kind : Token.Kind)
    (fault : Fault) (tokens : List Token) :
    (expect stop kind fault tokens).Consumes tokens
      fun t eaten => eaten = [t] ∧ t.kind = kind := by
  unfold expect
  split
  · exact Parsed.consumes_giveUp _ _ _ _
  · split
    · rename_i t rest h
      exact Parsed.consumes_done [t] ⟨rfl, h⟩
    · exact Parsed.consumes_giveUp _ _ _ _

theorem expect_of_kind {kind : Token.Kind} (fault : Fault)
    {t : Token} (h : t.kind = kind) (rest : List Token) :
    expect stop kind fault (t :: rest) = ⟨some t, rest, []⟩ := by
  simp [expect, h, Parsed.done]

theorem expect_of_ne {kind : Token.Kind} (fault : Fault)
    {t : Token} (h : t.kind ≠ kind) (rest : List Token) :
    expect stop kind fault (t :: rest) = blame stop fault (t :: rest) := by
  rw [expect, if_neg h]

theorem reads_expect {kind : Token.Kind} (fault : Fault) {t : Token}
    (h : t.kind = kind) : Reads (expect stop kind fault) [t] fun _ => True :=
  ⟨t, [], Log.clean_nil, fun rest _ => expect_of_kind stop fault h rest⟩

end
end Decl
end MirrorAdapter
