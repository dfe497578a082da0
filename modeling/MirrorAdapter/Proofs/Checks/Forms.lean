import MirrorAdapter.Directive.Item
import MirrorAdapter.Proofs.Grammar.Brackets

/-!
# Forms of items

What can be read of a directive list are items of one of three forms (`Form`).
What is blamed for a part that has none of them stands in that part
(`readItem_cases`).
-/
namespace MirrorAdapter
namespace Directive

open Grammar (Matched)

/-- An item is a key, a key with a list in parentheses, or a key with tokens
behind `=`. -/
inductive Form : List Token → Argument → Prop
  | flag {key : Token} : key.kind = .identifier → Form [key] .absent
  | list {key l r : Token} {inside : List Token} :
      key.kind = .identifier → l.kind = .lparen → Matched inside →
      r.kind = .rparen → Form (key :: l :: inside ++ [r]) (.list inside)
  | value {key equals : Token} {tokens : List Token} :
      key.kind = .identifier → equals.kind = .equal → tokens ≠ [] →
      Form (key :: equals :: tokens) (.value tokens)

/-- The item that tokens of some form write. -/
def writtenItem (part : List Token) (argument : Argument) : Item :=
  ⟨(part.headD default).text, (part.headD default).location, argument⟩

/-- A part of an argument list, and the place of its attribute. -/
structure Entry where
  place : Location
  tokens : List Token

/-- The place is that of a token of the entry, or that of its attribute if the
entry has none. -/
def Entry.Locates (e : Entry) (place : Location) : Prop :=
  (∃ t ∈ e.tokens, place = t.location) ∨ e.tokens = [] ∧ place = e.place

/-- A part is read if it has a form, and blamed for one of its own tokens
otherwise. -/
theorem readItem_cases (place : Location) (part : List Token) :
    (∃ argument, Form part argument ∧
        readItem place part = .ok (writtenItem part argument)) ∨
    ∃ found, readItem place part = .error found ∧
      Entry.Locates ⟨place, part⟩ found.location := by
  unfold readItem
  split
  · exact .inr ⟨_, rfl, .inr ⟨rfl, rfl⟩⟩
  rename_i key rest
  split
  · exact .inr ⟨_, rfl, .inl ⟨key, .head _, rfl⟩⟩
  rename_i word
  rw [ne_eq, not_not] at word
  split
  · exact .inl ⟨_, .flag word, rfl⟩
  rename_i second more
  have blamed :
      Entry.Locates ⟨place, key :: second :: more⟩ second.location :=
    .inl ⟨second, by simp, rfl⟩
  split
  · rename_i opens
    extract_lets closed
    split
    · exact .inr ⟨_, rfl, blamed⟩
    rename_i ends
    split
    · exact .inr ⟨_, rfl, blamed⟩
    rename_i matched
    simp only [Bool.or_eq_true, Bool.not_eq_true',
      not_or, Bool.not_eq_false, closed]
      at ends matched
    obtain ⟨atEnd, -⟩ := ends
    cases last : more.getLast? with
    | none => simp [last] at atEnd
    | some r =>
      obtain ⟨inside, rfl⟩ := List.getLast?_eq_some_iff.mp last
      have closes : r.kind = .rparen := by simpa using atEnd
      rw [List.dropLast_concat] at matched ⊢
      exact .inl ⟨_,
        .list word opens ((Grammar.balanced_iff inside).mp matched) closes, rfl⟩
  · split
    · rename_i sets
      split
      · exact .inr ⟨_, rfl, blamed⟩
      · rename_i empty
        exact .inl ⟨_, .value word sets (by simpa using empty), rfl⟩
    · exact .inr ⟨_, rfl, blamed⟩

theorem readItem_of_form {part : List Token} {argument : Argument}
    (h : Form part argument) (place : Location) :
    readItem place part = .ok (writtenItem part argument) := by
  cases h with
  | flag word => simp [readItem, writtenItem, word]
  | @list key l r inside word opens matched closes =>
    have inner := (Grammar.balanced_iff inside).mpr matched
    have plain :=
      Grammar.brackets_of_plain (t := key) (by simp [Grammar.allShapes, word])
    have whole : Token.balanced (key :: l :: (inside ++ [r])) = true := by
      rw [Token.balanced, Grammar.balancedFrom_plain plain.1 plain.2]
      exact Grammar.balanced_group
        (by simp [Grammar.allShapes, opens, closes]) inner []
    simp [readItem, writtenItem, word, opens, closes, whole, inner]
  | value word sets notEmpty =>
    simp [readItem, writtenItem, word, sets, notEmpty]

/-- An item has one form only. -/
theorem Form.argument_eq {part : List Token} {a b : Argument}
    (ha : Form part a) (hb : Form part b) : a = b := by
  have same :=
    (readItem_of_form ha default).symm.trans (readItem_of_form hb default)
  exact congrArg Item.argument (Except.ok.inj same)

theorem not_form_nil (argument : Argument) : ¬Form [] argument := by rintro ⟨⟩

end Directive
end MirrorAdapter
