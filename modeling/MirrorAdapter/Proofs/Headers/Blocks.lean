import MirrorAdapter.Compile

/-!
# Blocks of generated text

What a generated header declares is read off its text here, not off the lines
it was made of: the text is cut at its line ends, the line that opens a block
is looked for, and what stands in the braces behind it is the content of the
block.
-/
namespace MirrorAdapter

namespace Text

/-- Without a line end. -/
def OneLine (s : Text) : Prop := ('\n' : Byte) ∉ s

instance (s : Text) : Decidable (OneLine s) :=
  inferInstanceAs (Decidable (_ ∉ _))

@[simp] theorem oneLine_nil : OneLine [] := List.not_mem_nil

@[simp] theorem oneLine_append {a b : Text} :
    OneLine (a ++ b) ↔ OneLine a ∧ OneLine b := by
  simp [OneLine]

theorem oneLine_join {separator : Text} {parts : List Text}
    (between : OneLine separator) (h : ∀ part ∈ parts, OneLine part) :
    OneLine (join separator parts) := by
  fun_induction join separator parts with
  | case1 => exact oneLine_nil
  | case2 part => exact h part (List.mem_singleton_self part)
  | case3 part parts _ ih =>
    rw [List.forall_mem_cons] at h
    simp [h.1, between, ih h.2]

theorem oneLine_terminated {terminator : Text} {parts : List Text}
    (ending : OneLine terminator) (h : ∀ part ∈ parts, OneLine part) :
    OneLine (terminated terminator parts) := by
  intro found
  obtain ⟨part, member, inside⟩ := List.mem_flatMap.mp found
  exact (oneLine_append.mpr ⟨h part member, ending⟩) inside

/-- The lines of a text. -/
def lines : Text → List Text
  | [] => []
  | b :: rest =>
    if b = '\n' then [] :: lines rest
    else
      match lines rest with
      | [] => [[b]]
      | line :: more => (b :: line) :: more

theorem lines_line_append {line : Text} (h : OneLine line) (rest : Text) :
    lines (line ++ ('\n' : Byte) :: rest) = line :: lines rest := by
  induction line with
  | nil => simp [lines]
  | cons b line ih =>
    have other : b ≠ '\n' := fun same => h (same ▸ List.mem_cons_self)
    have more : OneLine line :=
      fun inside => h (List.mem_cons_of_mem b inside)
    rw [List.cons_append, lines, if_neg other, ih more]

theorem lines_append (s rest : Text) :
    lines (s ++ ('\n' : Byte) :: rest) =
      lines (s ++ [('\n' : Byte)]) ++ lines rest := by
  induction s with
  | nil => simp [lines]
  | cons b s ih =>
    rw [List.cons_append, List.cons_append, lines, lines, ih]
    split
    · rfl
    · -- The line at hand ends where `s` does, at the latest.
      have ended : lines (s ++ [('\n' : Byte)]) ≠ [] := by
        cases s with
        | nil => simp [lines]
        | cons c s =>
          rw [List.cons_append, lines]
          split
          · simp
          · split <;> simp
      obtain ⟨line, more, found⟩ := List.exists_cons_of_ne_nil ended
      rw [found]
      rfl

end Text

namespace Adapter

/-! ## Lines of rendered headers -/

namespace Line

/-- The line without its end. -/
def shown (l : Line) : Text :=
  (if l.text.isEmpty then [] else List.replicate (4 * l.level) 32) ++ l.text

theorem render_eq (l : Line) : l.render = l.shown ++ [('\n' : Byte)] := rfl

theorem oneLine_shown {l : Line} (h : Text.OneLine l.text) :
    Text.OneLine l.shown := by
  have blanks (n : Nat) : Text.OneLine (List.replicate n 32) := by
    intro inside
    exact absurd (List.eq_of_mem_replicate inside) (by decide)
  rw [shown, Text.oneLine_append]
  refine ⟨?_, h⟩
  split
  · exact Text.oneLine_nil
  · exact blanks _

theorem renderAll_cons (l : Line) (ls : List Line) :
    renderAll (l :: ls) = l.shown ++ ('\n' : Byte) :: renderAll ls := by
  simp [renderAll, render_eq]

theorem lines_renderAll_append (a b : List Line) :
    Text.lines (renderAll (a ++ b)) =
      Text.lines (renderAll a) ++ Text.lines (renderAll b) := by
  induction a with
  | nil => rfl
  | cons l a ih =>
    rw [List.cons_append, renderAll_cons, renderAll_cons, Text.lines_append,
      ih, ← List.append_assoc, ← Text.lines_append]

theorem lines_renderAll {ls : List Line} (h : ∀ l ∈ ls, Text.OneLine l.text) :
    Text.lines (renderAll ls) = ls.map shown := by
  induction ls with
  | nil => rfl
  | cons l ls ih =>
    rw [List.forall_mem_cons] at h
    rw [renderAll_cons, Text.lines_line_append (oneLine_shown h.1), ih h.2,
      List.map_cons]

end Line

/-! ## Reading a block -/

/-- A text at a level of indentation. -/
def indented (level : Nat) (s : Text) : Text :=
  List.replicate (4 * level) 32 ++ s

/-- What stands between an opening brace on the first line and the line that
closes it, without indentation. -/
def inBraces (level : Nat) : List Text → Option (List Text)
  | [] => none
  | first :: rest =>
    if first = indented level "\x7b" then
      some ((rest.takeWhile
            fun line => !(indented level "\x7d").isPrefixOf line).map
          (·.drop (4 * (level + 1))))
    else none

/-- What stands in the braces behind the line with the given head. Of several
such lines the last one counts, for what comes before the declarations of a
header, its comments and include lines, may say anything. -/
def blockAfter (level : Nat) (head : Text) : List Text → Option (List Text)
  | [] => none
  | line :: rest =>
    match blockAfter level head rest with
    | some inside => some inside
    | none => if line = indented level head then inBraces level rest else none

/-- The lines in the block of a header that a head opens. -/
def Artifact.block (a : Artifact) (level : Nat) (head : Text) :
    Option (List Text) :=
  blockAfter level head (Text.lines a.content)

theorem blockAfter_append {level : Nat} {head : Text} {rest inside : List Text}
    (front : List Text) (h : blockAfter level head rest = some inside) :
    blockAfter level head (front ++ rest) = some inside := by
  induction front with
  | nil => exact h
  | cons line front ih => rw [List.cons_append, blockAfter, ih]

theorem blockAfter_eq_none {level : Nat} {head : Text} {lines : List Text}
    (h : ∀ line ∈ lines, line ≠ indented level head) :
    blockAfter level head lines = none := by
  induction lines with
  | nil => rfl
  | cons line lines ih =>
    rw [List.forall_mem_cons] at h
    rw [blockAfter, ih h.2, if_neg h.1]

/-! ## Blocks among rendered lines -/

/-- The lines of a block. -/
def blockLines (level : Nat) (head : Text) (inside : List Text)
    (close : Text) : List Line :=
  [Line.of level head, Line.of level "\x7b"] ++
    inside.map (Line.of (level + 1)) ++ [Line.of level close]

theorem eq_of_replicate_append {b : Byte} {m n : Nat}
    {s t : Text} (hs : s.head? ≠ some b) (ht : t.head? ≠ some b)
    (h : List.replicate m b ++ s = List.replicate n b ++ t) :
    m = n ∧ s = t := by
  induction m generalizing n with
  | zero =>
    cases n with
    | zero => exact ⟨rfl, h⟩
    | succ n =>
      rw [List.replicate_zero, List.nil_append] at h
      simp [h, List.replicate_succ] at hs
  | succ m ih =>
    cases n with
    | zero =>
      rw [List.replicate_zero, List.nil_append] at h
      simp [← h, List.replicate_succ] at ht
    | succ n =>
      simp only [List.replicate_succ,
        List.cons_append, List.cons.injEq, true_and]
        at h
      obtain ⟨same, rest⟩ := ih h
      exact ⟨congrArg (· + 1) same, rest⟩

/-- A text at a deeper level has a blank where one that begins with a word has
none. -/
theorem indented_succ (level more : Nat) (s : Text) :
    indented (level + (more + 1)) s =
      indented level (32 :: (List.replicate (4 * more + 3) 32 ++ s)) := by
  have split : 4 * (level + (more + 1)) = 4 * level + (4 * more + 3 + 1) := by
    omega
  rw [indented, split, ← List.replicate_append_replicate,
    List.replicate_succ, List.append_assoc]
  rfl

/-- The text begins with a word of a struct or of a static function. -/
def StartsBlock (head : Text) : Prop := head.head? = some ('s' : Byte)

/-- The text begins with a closing brace. -/
def ClosesBlock (close : Text) : Prop := close.head? = some ('\x7d' : Byte)

/-- A line does not read like the head of a block if it stands deeper, or is
flush and another one. -/
def Line.Apart (level : Nat) (head : Text) (l : Line) : Prop :=
  level < l.level ∨ l.text.head? ≠ some 32 ∧ (l.level = level → l.text ≠ head)

theorem Line.Apart.shown_ne {level : Nat} {head : Text} {l : Line}
    (h : l.Apart level head) (start : StartsBlock head) :
    l.shown ≠ indented level head := by
  have flush : head.head? ≠ some 32 := by rw [start]; decide
  intro same
  unfold Line.shown at same
  split at same
  · rename_i empty
    have nothing : indented level head = [] := by
      rw [← same, List.isEmpty_iff.mp empty]; rfl
    rw [List.append_eq_nil_iff.mp nothing |>.2] at start
    cases start
  · rcases h with deeper | ⟨flush', other⟩
    · obtain ⟨more, depth⟩ : ∃ more, l.level = level + (more + 1) :=
        ⟨l.level - level - 1, by omega⟩
      rw [depth, show List.replicate _ _ ++ l.text = indented _ l.text from rfl,
        indented_succ, indented, indented, List.append_cancel_left_eq]
        at same
      exact flush (by rw [← same]; rfl)
    · obtain ⟨levels, texts⟩ := eq_of_replicate_append flush' flush same
      exact other (by omega) texts

theorem shown_of (level : Nat) {s : Text} (h : s ≠ []) :
    (Line.of level s).shown = indented level s := by
  simp [Line.shown, Line.of, indented, h]

/-- The content of a block is read back from its lines, for all of it stands
deeper than the line that closes it. -/
theorem inBraces_append {level : Nat} {inside : List Text}
    {close : Text} (rest : List Text) (closes : ClosesBlock close) :
    inBraces level (indented level "\x7b" ::
      ((inside.map (Line.of (level + 1))).map Line.shown ++
        indented level close :: rest)) =
      some inside := by
  have brace : indented level "\x7d" ≠ [] := by simp +decide [indented]
  have deeper (s : Text) :
      (indented level "\x7d").isPrefixOf (Line.of (level + 1) s).shown =
        false := by
    rw [Bool.eq_false_iff, ne_eq, List.isPrefixOf_iff_prefix]
    by_cases empty : s = []
    · rw [empty]
      exact fun starts => brace (List.prefix_nil.mp starts)
    · rw [shown_of _ empty, indented_succ, indented, indented,
        List.prefix_append_right_inj]
      exact fun starts => absurd (List.cons_prefix_cons.mp starts).1 (by decide)
  have ended :
      (indented level "\x7d").isPrefixOf (indented level close) = true := by
    obtain ⟨more, rfl⟩ := List.head?_eq_some_iff.mp closes
    rw [List.isPrefixOf_iff_prefix, indented, indented,
      List.prefix_append_right_inj]
    exact List.prefix_append _ more
  have statement (s : Text) :
      (Line.of (level + 1) s).shown.drop (4 * (level + 1)) = s := by
    by_cases empty : s = []
    · rw [empty]
      exact List.drop_nil
    · simp [shown_of _ empty, indented]
  rw [inBraces, if_pos rfl, List.takeWhile_append_of_pos,
    List.takeWhile_cons_of_neg, List.append_nil, List.map_map, List.map_map]
  · simp [Function.comp_def, statement]
  · simp [ended]
  · intro line found
    obtain ⟨l, member, rfl⟩ := List.mem_map.mp found
    obtain ⟨s, -, rfl⟩ := List.mem_map.mp member
    simp [deeper]

/-- Whether a line surely does not read like the head of a block, judged by
its first byte. -/
def Line.standsApart (level : Nat) (l : Line) : Bool :=
  match l.text with
  | [] => true
  | b :: _ => b != 32 && (b != 's' || l.level != level)

theorem Line.apart_of_standsApart {level : Nat} {head : Text}
    (start : StartsBlock head) {l : Line} (h : l.standsApart level = true) :
    l.Apart level head := by
  obtain ⟨word, rfl⟩ := List.head?_eq_some_iff.mp start
  unfold standsApart at h
  split at h
  · rename_i empty
    exact .inr ⟨by simp [empty], by simp [empty]⟩
  · rename_i b rest begins
    simp only [Bool.and_eq_true, bne_iff_ne, Bool.or_eq_true] at h
    obtain ⟨flush, other⟩ := h
    refine .inr ⟨by simpa [begins] using flush, fun same text => ?_⟩
    rw [begins] at text
    exact other.elim (· (List.cons.inj text).1) (· same)

theorem apart_of_all {level : Nat} {head : Text} (start : StartsBlock head)
    {lines : List Line} (h : lines.all (Line.standsApart level) = true) :
    ∀ l ∈ lines, l.Apart level head :=
  fun l found => Line.apart_of_standsApart start (List.all_eq_true.mp h l found)

/-- Another block of the level reads like the given one only if it has the
same head. -/
theorem blockLines_apart {level : Nat} {head other close : Text}
    {inside : List Text} (start : StartsBlock head) (start' : StartsBlock other)
    (closes : ClosesBlock close) (ne : other ≠ head) :
    ∀ l ∈ blockLines level other inside close, l.Apart level head := by
  obtain ⟨more, rfl⟩ := List.head?_eq_some_iff.mp closes
  have flush : other.head? ≠ some 32 := by rw [start']; decide
  intro l found
  simp only [blockLines, List.mem_append, List.mem_cons,
    List.mem_map, List.not_mem_nil, or_false]
    at found
  rcases found with ((rfl | rfl) | ⟨s, -, rfl⟩) | rfl
  · exact .inr ⟨flush, fun _ => ne⟩
  · exact Line.apart_of_standsApart start rfl
  · exact .inl (Nat.lt_succ_self level)
  · exact Line.apart_of_standsApart start rfl

/-- A block among lines is read back if no line behind it reads like its
head. -/
theorem blockAfter_lines {level : Nat} {head close : Text} {inside : List Text}
    (front : List Line) {back : List Line} (start : StartsBlock head)
    (closes : ClosesBlock close) (apart : ∀ l ∈ back, l.Apart level head) :
    blockAfter level head
      ((front ++ (blockLines level head inside close ++ back)).map Line.shown) =
      some inside := by
  rw [List.map_append]
  refine blockAfter_append _ ?_
  have word : head ≠ [] := by rintro rfl; cases start
  obtain ⟨more, rfl⟩ := List.head?_eq_some_iff.mp closes
  have behind :
      ∀ l ∈ Line.of level "\x7b" :: (inside.map (Line.of (level + 1)) ++
                (Line.of level ('\x7d' :: more)) :: back),
        l.Apart level head := by
    intro l found
    simp only [List.mem_append, List.mem_cons, List.mem_map] at found
    rcases found with rfl | ⟨s, -, rfl⟩ | rfl | found
    · exact Line.apart_of_standsApart start rfl
    · exact .inl (Nat.lt_succ_self level)
    · exact Line.apart_of_standsApart start rfl
    · exact apart l found
  have none_behind :
      blockAfter level head
        ((Line.of level "\x7b" :: (inside.map (Line.of (level + 1)) ++
            (Line.of level ('\x7d' :: more)) :: back)).map
          Line.shown) =
        none := by
    refine blockAfter_eq_none fun line found => ?_
    obtain ⟨l, member, rfl⟩ := List.mem_map.mp found
    exact (behind l member).shown_ne start
  have shape :
      (blockLines level head inside ('\x7d' :: more) ++ back).map Line.shown =
        indented level head ::
          (Line.of level "\x7b" :: (inside.map (Line.of (level + 1)) ++
              (Line.of level ('\x7d' :: more)) :: back)).map
            Line.shown := by
    simp [blockLines, shown_of, word]
  rw [shape, blockAfter, none_behind]
  dsimp only
  rw [if_pos rfl, List.map_cons, List.map_append, List.map_cons,
    shown_of _ (by decide), shown_of _ (by simp)]
  exact inBraces_append _ closes

/-- No line has a line end inside. -/
def PlainLines (lines : List Line) : Prop := ∀ l ∈ lines, Text.OneLine l.text

theorem plainLines_append {a b : List Line} :
    PlainLines (a ++ b) ↔ PlainLines a ∧ PlainLines b :=
  List.forall_mem_append

theorem plainLines_of {level : Nat} {texts : List Text}
    (h : ∀ s ∈ texts, Text.OneLine s) :
    PlainLines (texts.map (Line.of level)) :=
  List.forall_mem_map.mpr h

theorem plainLines_blockLines {level : Nat} {head close : Text}
    {inside : List Text} (opens : Text.OneLine head)
    (h : ∀ s ∈ inside, Text.OneLine s) (closes : Text.OneLine close) :
    PlainLines (blockLines level head inside close) := by
  simp only [blockLines, plainLines_append]
  refine ⟨⟨?_, plainLines_of h⟩, ?_⟩
  · simp +decide [PlainLines, Line.of, opens]
  · simpa [PlainLines, Line.of] using closes

/-- What is read from the plain lines at the end of a header is read from the
header. -/
theorem Artifact.block_eq {a : Artifact} {level : Nat}
    {head : Text} {inside : List Text} {front rest : List Line}
    (content : a.content = Line.renderAll (front ++ rest))
    (plain : PlainLines rest)
    (h : blockAfter level head (rest.map Line.shown) = some inside) :
    a.block level head = some inside := by
  rw [Artifact.block, content, Line.lines_renderAll_append,
    Line.lines_renderAll plain]
  exact blockAfter_append _ h

end Adapter
end MirrorAdapter
