import MirrorAdapter.Text.Basic

/-!
# UTF-8

Texts are bytes, which need not be characters in UTF-8. A text is repaired by
putting the replacement character in the place of what is none: one for each
byte that starts no character, and one for each beginning of a character that
does not go on as it should. Main statement: `repaired_of_isUtf8`.
-/
namespace MirrorAdapter
namespace Text

/-- The least and the greatest byte that there can be. -/
abbrev Bounds := Byte × Byte

/-- Bounds of most bytes after the first of a character. -/
def anyTail : Bounds := (0x80, 0xbf)

/-- What a character goes on with that starts with a byte, byte for byte. -/
def following? (b : Byte) : Option (List Bounds) :=
  if b < 0x80 then some []
  else if b < 0xc2 then none
  else if b < 0xe0 then some [anyTail]
  else if b = 0xe0 then some [(0xa0, 0xbf), anyTail]
  else if b = 0xed then some [(0x80, 0x9f), anyTail]
  else if b < 0xf0 then some [anyTail, anyTail]
  else if b = 0xf0 then some [(0x90, 0xbf), anyTail, anyTail]
  else if b < 0xf4 then some [anyTail, anyTail, anyTail]
  else if b = 0xf4 then some [(0x80, 0x8f), anyTail, anyTail]
  else none

/-- Whether a text starts with the rest of a character and goes on with whole
ones. -/
def goesOn : List Bounds → Text → Bool
  | due, [] => due.isEmpty
  | [], b :: rest =>
    match following? b with
    | none => false
    | some due => goesOn due rest
  | (least, greatest) :: due, b :: rest =>
    decide (least ≤ b ∧ b ≤ greatest) && goesOn due rest

def isUtf8 (s : Text) : Bool := goesOn [] s

/-- The replacement character. -/
def replacement : Text := [0xef, 0xbf, 0xbd]

/-- The repaired text after so much of a character, of which more is due. -/
def repairedFrom (begun : Text) (due : List Bounds) : Text → Text
  | [] => if due.isEmpty then begun else replacement
  | b :: rest =>
    let restarted : Text :=
      match following? b with
      | none => replacement ++ repairedFrom [] [] rest
      | some due => repairedFrom [b] due rest
    match due with
    | [] => begun ++ restarted
    | (least, greatest) :: due =>
      if least ≤ b ∧ b ≤ greatest then repairedFrom (begun ++ [b]) due rest
      else replacement ++ restarted

/-- The text with what is no character replaced. -/
def repaired (s : Text) : Text := repairedFrom [] [] s

theorem repairedFrom_of_goesOn {due : List Bounds} {s : Text}
    (whole : goesOn due s = true) (begun : Text) :
    repairedFrom begun due s = begun ++ s := by
  induction s generalizing begun due with
  | nil =>
    rw [goesOn] at whole
    rw [repairedFrom, if_pos whole, List.append_nil]
  | cons b rest ih =>
    cases due with
    | nil =>
      rw [goesOn] at whole
      rw [repairedFrom]
      cases started : following? b with
      | none => simp [started] at whole
      | some due =>
        rw [started] at whole
        dsimp only at whole ⊢
        rw [ih whole, List.singleton_append]
    | cons bounds due =>
      obtain ⟨least, greatest⟩ := bounds
      rw [goesOn, Bool.and_eq_true, decide_eq_true_iff] at whole
      rw [repairedFrom, if_pos whole.1, ih whole.2, List.append_assoc,
        List.singleton_append]

theorem repaired_of_isUtf8 {s : Text} (whole : s.isUtf8 = true) :
    s.repaired = s :=
  repairedFrom_of_goesOn whole []

example : repaired [0xc3, 0xa9, 0xff, 0xe2, 0x82, 0x41] =
    [0xc3, 0xa9] ++ replacement ++ replacement ++ [0x41] := by
  decide

end Text
end MirrorAdapter
