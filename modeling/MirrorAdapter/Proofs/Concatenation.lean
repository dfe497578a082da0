import MirrorAdapter.Proofs.Recovery.Endings
import MirrorAdapter.Proofs.Spans

/-!
# Texts one behind the other

A text that ends with white space is cut into the same pieces whatever stands
behind it, since no piece reaches across its end. What its tokens declare
without errors is therefore declared by every longer text, in front of what
the rest declares.
-/
namespace MirrorAdapter

/-! ## Pieces -/

namespace Piece

/-- A piece that leaves something of the text does not look further. -/
theorem blockComment_append_right {s : Text}
    (left : (blockComment s).2 ≠ []) (behind : Text) :
    blockComment (s ++ behind) =
      ((blockComment s).1, (blockComment s).2 ++ behind) := by
  fun_induction blockComment s with
  | case1 => exact absurd rfl left
  | case2 => exact absurd rfl left
  | case3 a b rest closes => simp [blockComment, closes]
  | case4 a b rest other inside after h ih =>
    rw [h] at ih
    have later := ih left
    rw [List.cons_append] at later
    rw [List.cons_append, List.cons_append, blockComment, if_neg other, later]

theorem stringBody_append_right {s : Text}
    (left : (stringBody s).2.2 ≠ []) (behind : Text) :
    stringBody (s ++ behind) =
      ((stringBody s).1, (stringBody s).2.1, (stringBody s).2.2 ++ behind) := by
  fun_induction stringBody s with
  | case1 => exact absurd rfl left
  | case2 => exact absurd rfl left
  | case3 b quote ends => cases behind <;> simp [stringBody, quote, ends]
  | case4 => exact absurd rfl left
  | case5 b rest => simp [stringBody]
  | case6 a b rest quote ends => simp [stringBody, quote, ends]
  | case7 b rest raw value after h quote ends ih =>
    rw [h] at ih
    simp [stringBody, quote, ends, ih left]
  | case8 a b rest quote ends other raw value after h ih =>
    rw [h] at ih
    have later := ih left
    rw [List.cons_append] at later
    simp [stringBody, quote, ends, other, later]

theorem dropWhile_append_right {p : Byte → Bool} {s : Text}
    (left : s.dropWhile p ≠ []) (behind : Text) :
    (s ++ behind).takeWhile p = s.takeWhile p ∧
    (s ++ behind).dropWhile p = s.dropWhile p ++ behind := by
  constructor
  · rw [List.takeWhile_append, if_neg]
    intro all
    have whole :=
      congrArg List.length (List.takeWhile_append_dropWhile (p := p) (l := s))
    rw [List.length_append, all] at whole
    exact left (List.length_eq_zero_iff.mp (by omega))
  · rw [List.dropWhile_append, if_neg (by simpa using left)]

/-- A cut that leaves something of the text is a cut of every longer one. -/
theorem Cut.append_right {b : Byte} {rest : Text} {cut : Piece × Text}
    (h : Cut b rest cut) (left : cut.2 ≠ []) (behind : Text) :
    Cut b (rest ++ behind) (cut.1, cut.2 ++ behind) := by
  cases h with
  | space blank => exact .space blank
  | name space letter =>
    obtain ⟨taken, dropped⟩ := dropWhile_append_right left behind
    simpa only [word, taken, dropped]
      using @Cut.name b (rest ++ behind) space letter
  | number space letter digit =>
    obtain ⟨taken, dropped⟩ := dropWhile_append_right left behind
    simpa only [word, taken, dropped]
      using @Cut.number b (rest ++ behind) space letter digit
  | string =>
    simpa only [stringBody_append_right left behind]
      using Cut.string (rest ++ behind)
  | line body =>
    obtain ⟨taken, dropped⟩ := dropWhile_append_right left behind
    simpa only [List.cons_append, taken, dropped]
      using Cut.line (body ++ behind)
  | block body =>
    simpa only [List.cons_append, blockComment_append_right left behind]
      using Cut.block (body ++ behind)
  | scope body => exact .scope (body ++ behind)
  | mark isMark slash colon =>
    obtain ⟨c, body, rfl⟩ := List.exists_cons_of_ne_nil left
    exact .mark isMark slash colon

theorem next_append_right {b : Byte} {rest : Text}
    (left : (next b rest).2 ≠ []) (behind : Text) :
    next b (rest ++ behind) = ((next b rest).1, (next b rest).2 ++ behind) :=
  ((cut_next b rest).append_right left behind).next_eq

end Piece

/-- The text is empty or ends with white space that belongs to no comment and
no string literal. -/
def EndsBlank (s : Text) : Prop :=
  ∀ piece ∈ (pieces s).getLast?,
    piece.token = none ∧ ∀ b ∈ piece.raw, b.isSpace = true

instance (s : Text) : Decidable (EndsBlank s) :=
  inferInstanceAs (Decidable (∀ piece ∈ (pieces s).getLast?, _))

theorem pieces_append {s : Text} (h : EndsBlank s) (behind : Text) :
    pieces (s ++ behind) = pieces s ++ pieces behind := by
  fun_induction pieces s with
  | case1 => rfl
  | case2 b rest _ ih =>
    rw [List.cons_append, pieces, List.cons_append]
    by_cases atEnd : (Piece.next b rest).2 = []
    · -- The last piece is a single blank, and a blank is cut off by itself.
      obtain ⟨-, blank⟩ :=
        h (Piece.next b rest).1 (by rw [pieces, atEnd]; simp [pieces])
      have whole := Piece.next_append b rest
      rw [atEnd, List.append_nil] at whole
      have space : b.isSpace = true := blank b (by simp [whole])
      have alone : rest = [] := by simpa [Piece.next, space] using atEnd
      subst alone
      simp [Piece.next, space, pieces]
    · rw [Piece.next_append_right atEnd behind]
      refine congrArg _ (ih ?_)
      intro piece last
      refine h piece ?_
      rw [pieces, List.getLast?_cons, Option.mem_def.mp last]
      rfl

/-! ## Tokens -/

namespace Token

theorem locate_ne_nil (file : Text) (p : Position) (ps : List Piece) :
    locate file p ps ≠ [] := by
  induction ps generalizing p with
  | nil => simp [locate]
  | cons piece ps ih =>
    rw [locate]
    split
    · exact ih _
    · simp

theorem locate_append (file : Text) (p : Position) (front back : List Piece) :
    locate file p (front ++ back) = (locate file p front).dropLast ++
        locate file (p.after (front.flatMap Piece.raw)) back := by
  induction front generalizing p with
  | nil => rfl
  | cons piece front ih =>
    rw [List.cons_append, locate, locate, List.flatMap_cons,
      Position.after_append]
    split
    · exact ih _
    · rw [List.dropLast_cons_of_ne_nil (locate_ne_nil _ _ _), ih,
        List.cons_append]

/-- The tokens of a text that ends with white space, and those of what stands
behind it. -/
theorem scan_append (file : Text) {s : Text} (h : EndsBlank s) (behind : Text) :
    scan file (s ++ behind) =
      scanBody file s ++ locate file (Position.behind s) (pieces behind) := by
  rw [scan, pieces_append h, locate_append, join_pieces,
    Position.after_eq_behind]
  rfl

/-- Only the last token of a text marks an end. -/
theorem Covers.exists_concat {file before text : Text}
    {ts : List Token} (h : Covers file before text ts) :
    ∃ front place, ts = front ++ [⟨.eof, [], place⟩] ∧ Decl.EofFree front := by
  induction h with
  | done => exact ⟨[], _, rfl, by simp [Decl.EofFree]⟩
  | @token _ _ _ _ t _ _ spans _ _ ih =>
    obtain ⟨front, place, rfl, free⟩ := ih
    exact ⟨t :: front, place, rfl,
      List.forall_mem_cons.mpr ⟨spans.notEnd, free⟩⟩

end Token

/-! ## Declarations -/

namespace Decl

/-- Reading without errors does not look at the mark of the end. -/
theorem readTokens_scanBody {path s : Text}
    (clean : ErrorFree path (Token.scan path s)) :
    EofFree (Token.scanBody path s) ∧
    readTokens path (Token.scanBody path s) = readText path s := by
  obtain ⟨front, place, whole, free⟩ :=
    (Token.covers_scan path s).exists_concat
  have before : beforeEnd (front ++ [⟨.eof, [], place⟩]) = front := by
    rw [beforeEnd_append_of_eofFree free]
    simp [beforeEnd]
  rw [ErrorFree, readTokens, whole, before] at clean
  rw [Token.scanBody, readText, whole, List.dropLast_concat,
    readTokens_of_eofFree path free, readTokens, before,
    readItems_of_clean _ (noEnd path) front [] clean]
  exact ⟨free, rfl⟩

/-- A text that declares something without errors and ends with white space,
followed by any other: all that the former declares and reports is what the
whole begins with. -/
theorem readText_append {path s : Text} (h : EndsBlank s)
    (clean : ErrorFree path (Token.scan path s)) (behind : Text) :
    let rest :=
      readTokens path (Token.locate path (Position.behind s) (pieces behind))
    readText path (s ++ behind) =
      { file :=
          { path
            includes := (readText path s).file.includes ++ rest.file.includes
            mirrors := (readText path s).file.mirrors ++ rest.file.mirrors }
        log := (readText path s).log ++ rest.log } := by
  obtain ⟨free, same⟩ := readTokens_scanBody clean
  have clean' : ErrorFree path (Token.scanBody path s) := by
    rwa [ErrorFree, same]
  rw [readText, Token.scan_append path h,
    readTokens_append path free clean', same]

end Decl

end MirrorAdapter
