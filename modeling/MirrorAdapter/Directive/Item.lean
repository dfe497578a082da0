import MirrorAdapter.Directive.Basic

/-!
# Directive items

A directive list is cut at its commas into items `key`, `key(tokens)` and `key
= tokens`. A comma inside brackets cuts nothing; brackets are counted together
whatever their shapes.
-/
namespace MirrorAdapter
namespace Directive

/-- What follows the key of an item. -/
inductive Argument where
  | absent
  | list (tokens : List Token)
  | value (tokens : List Token)
deriving Repr, DecidableEq, Inhabited

structure Item where
  key : Text
  location : Location
  argument : Argument
deriving Repr, DecidableEq, Inhabited

/-- The parts of a token list between commas outside `depth` open brackets; at
least one part. -/
def splitCommas (depth : Int) : List Token → List (List Token)
  | [] => [[]]
  | t :: ts =>
    if depth = 0 ∧ t.kind = .comma then [] :: splitCommas 0 ts
    else
      match splitCommas (depth + t.kind.nesting) ts with
      | [] => [[t]]
      | part :: parts => (t :: part) :: parts

/-- The parts of an argument list; an empty list has none. -/
def splitArguments (tokens : List Token) : List (List Token) :=
  if tokens.isEmpty then [] else splitCommas 0 tokens

theorem splitCommas_ne_nil (depth : Int) (tokens : List Token) :
    splitCommas depth tokens ≠ [] := by
  fun_cases splitCommas depth tokens <;> simp

/-- Where nothing is cut off, the one part is the whole list. -/
theorem eq_of_splitCommas_eq_singleton {depth : Int} {tokens part : List Token}
    (h : splitCommas depth tokens = [part]) : part = tokens := by
  induction tokens generalizing depth part with
  | nil => simpa [splitCommas] using h.symm
  | cons t ts ih =>
    rw [splitCommas] at h
    split at h
    · exact absurd (List.cons.inj h).2 (splitCommas_ne_nil 0 ts)
    · split at h
      · rename_i none_left
        exact absurd none_left (splitCommas_ne_nil _ ts)
      · rename_i first others found
        obtain ⟨rfl, rfl⟩ := List.cons.inj h
        rw [ih found]

/-- The item that a part of a directive list writes. The second place given is
blamed for an empty part. -/
def readItem (fallback : Location) (tokens : List Token) :
    Except Finding Item :=
  match tokens with
  | [] => .error ⟨.emptyArgument, fallback⟩
  | first :: rest =>
    if first.kind ≠ .identifier then
      .error ⟨.notAKey first.text, first.location⟩
    else
      match rest with
      | [] => .ok ⟨first.text, first.location, .absent⟩
      | second :: more =>
        if second.kind = .lparen then
          let closed : Bool := match more.getLast? with
            | some last => last.kind == .rparen
            | none => false
          if !closed || !Token.balanced tokens then
            .error ⟨.unbalanced first.text, second.location⟩
          else if !Token.balanced more.dropLast then
            .error ⟨.trailing first.text, second.location⟩
          else .ok ⟨first.text, first.location, .list more.dropLast⟩
        else if second.kind = .equal then
          if more.isEmpty then
            .error ⟨.missingValue first.text, second.location⟩
          else .ok ⟨first.text, first.location, .value more⟩
        else .error ⟨.unexpected second.text first.text, second.location⟩

/-- The items of an attribute, each read or found faulty. -/
def readItems (a : Decl.Attribute) : List (Except Finding Item) :=
  match a.arguments with
  | none => [.error ⟨.noArguments, a.location⟩]
  | some [] => [.error ⟨.emptyList, a.location⟩]
  | some tokens => (splitArguments tokens).map (readItem a.location)

/-- What could be read of some parts. -/
def sound {α : Type} (parts : List (Except Finding α)) : List α :=
  parts.filterMap Except.toOption

/-- What is wrong with the others. -/
def findings {α : Type} (parts : List (Except Finding α)) : List Finding :=
  parts.filterMap fun
    | .error finding => some finding
    | .ok _ => none

end Directive
end MirrorAdapter
