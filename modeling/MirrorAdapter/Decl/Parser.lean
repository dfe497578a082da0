import MirrorAdapter.Decl.Definition
import MirrorAdapter.Token.Lexer

/-!
# Reading mirror files

A file is a run of include lines, namespace blocks and mirror definitions.
Reading never stops early: what is malformed is reported and skipped.
Namespace blocks are kept on a stack, so the content of a file is the
concatenation of what its items contribute, in order.
-/
namespace MirrorAdapter
namespace Decl

/-- What a stretch of a file contributes. -/
structure Content where
  includes : List Include := []
  mirrors : List Mirror := []
  log : Log := []

namespace Content

def append (a b : Content) : Content :=
  ⟨a.includes ++ b.includes, a.mirrors ++ b.mirrors, a.log ++ b.log⟩

instance : Append Content := ⟨append⟩

/-- A stretch that contributes reports only. -/
def ofLog (log : Log) : Content := { log }

end Content

/-- A namespace block whose end has not been read yet. -/
structure Block where
  location : Location
  components : List Text

/-- The components of all open blocks, outermost first; the blocks are given
innermost first. -/
def scopeOf (blocks : List Block) : List Text :=
  blocks.reverse.flatMap Block.components

section
variable (stop : Token)

/-- The target of an include line after the word `include`, which stands on
the given line: a string, or everything from a `<` to the next `>`, on the
same line. -/
def readTarget (hash : Location) (line : UInt32) (tokens : List Token) :
    Parsed Include :=
  match tokens with
  | [] => .giveUp [] (Fault.missingTarget.report hash)
  | t :: ts =>
    if t.kind = .string ∧ t.line = line then
      .done ⟨"\"" ++ t.text ++ "\"", hash⟩ ts
    else if t.kind = .less ∧ t.line = line then
      let inside (u : Token) : Bool := u.line == line && u.kind != .greater
      match ts.dropWhile inside with
      | [] => .giveUp [] (Fault.unterminatedTarget.report hash)
      | closing :: rest =>
        if closing.line = line then
          .done
            ⟨t.text ++ (ts.takeWhile inside).flatMap Token.text ++ closing.text,
              hash⟩ rest
        else .giveUp (closing :: rest) (Fault.unterminatedTarget.report hash)
    else .giveUp ((t :: ts).dropWhile (·.line == line))
      (Fault.missingTarget.report hash)

/-- A `#` line after its mark. Where it is no include, the rest of the mark's
line is skipped. -/
def readInclude (hash : Location) (tokens : List Token) : Parsed Include :=
  match tokens with
  | [] => blame stop .notAnInclude []
  | t :: ts =>
    if t.isWord "include" then readTarget hash t.line ts
    else .giveUp ((t :: ts).dropWhile (·.line == hash.line))
      (Fault.notAnInclude.report t.location)

/-- The components of a namespace after the word `namespace`, up to its
opening brace. -/
def readNamespace (tokens : List Token) : Parsed (List Text) :=
  (expect stop .identifier .missingNamespaceName tokens).andThen
    fun first rest =>
    match pathTail rest with
    | (none, rest) => blame stop .missingNamespaceName rest
    | (some components, rest) =>
      (expect stop .lbrace .missingNamespaceBrace rest).andThen fun _ rest =>
        .done (first.text :: components) rest

theorem within_readTarget (hash : Location) (line : UInt32)
    (tokens : List Token) : (readTarget hash line tokens).Within tokens := by
  unfold readTarget
  split
  · exact Parsed.within_giveUp _ _
  · rename_i t ts
    split
    · exact (Parsed.within_done _ _).cons _
    · split
      · have tail :=
          List.dropWhile_suffix (l := ts)
            fun u : Token => u.line == line && u.kind != .greater
        dsimp only
        split
        · exact List.nil_suffix
        · rename_i h
          rw [h] at tail
          split
          · exact (((List.suffix_cons _ _).trans tail).trans
                (List.suffix_cons t ts) : _ <:+ t :: ts)
          · exact (tail.trans (List.suffix_cons t ts) : _ <:+ t :: ts)
      · exact (Parsed.within_giveUp _ _).trans (List.dropWhile_suffix _)

theorem within_readInclude (hash : Location) (tokens : List Token) :
    (readInclude stop hash tokens).Within tokens := by
  unfold readInclude
  split
  · exact within_blame stop _ _
  · split
    · exact (within_readTarget _ _ _).cons _
    · exact (Parsed.within_giveUp _ _).trans (List.dropWhile_suffix _)

theorem within_readNamespace (tokens : List Token) :
    (readNamespace stop tokens).Within tokens :=
  (within_expect stop _ _ _).andThen fun _ rest => by
    have tail := pathTail_suffix rest
    split
    · rename_i h
      rw [h] at tail
      exact (within_blame stop _ _).trans tail
    · rename_i h
      rw [h] at tail
      exact (Parsed.Within.andThen (within_expect stop _ _ _)
          fun _ _ => Parsed.within_done _ _).trans tail

/-- What an include line contributes; inside a namespace block it comes with a
warning. -/
def includeContent (blocks : List Block) (line : Parsed Include) : Content :=
  match line.value with
  | none => .ofLog line.log
  | some found =>
    let hoisted :=
      if blocks.isEmpty then []
      else [Fault.hoistedInclude.report found.location]
    { includes := [found], log := line.log ++ hoisted }

/-- What a definition contributes. -/
def Definition.content (d : Definition) : Content :=
  { mirrors := d.mirror.toList, log := d.log }

/-- The content of the rest of a file inside the given open blocks, innermost
first. -/
def readItems (blocks : List Block) (tokens : List Token) : Content :=
  match tokens with
  | [] =>
    .ofLog
      (blocks.map fun block => Fault.unclosedNamespace.report block.location)
  | t :: ts =>
    if closes : t.kind = .rbrace then
      match blocks with
      | [] =>
        .ofLog [Fault.unbalancedBrace.report t.location] ++ readItems [] ts
      | _ :: outer => readItems outer ts
    else if t.kind = .hash then
      have : (readInclude stop t.location ts).rest.length < ts.length + 1 :=
        Nat.lt_succ_of_le
          (List.IsSuffix.length_le (within_readInclude stop t.location ts))
      let line := readInclude stop t.location ts
      includeContent blocks line ++ readItems blocks line.rest
    else if t.isWord "namespace" then
      match h : readNamespace stop ts with
      | ⟨some components, rest, log⟩ =>
        have : rest.length < ts.length + 1 := by
          have within : rest <:+ ts := by
            have := within_readNamespace stop ts
            rwa [h] at this
          exact Nat.lt_succ_of_le within.length_le
        .ofLog log ++ readItems (⟨t.location, components⟩ :: blocks) rest
      | ⟨none, rest, log⟩ =>
        have : (skipStatement 0 rest).length < ts.length + 1 := by
          have within : rest <:+ ts := by
            have := within_readNamespace stop ts
            rwa [h] at this
          exact Nat.lt_succ_of_le
            ((skipStatement_suffix 0 rest).trans within).length_le
        .ofLog log ++ readItems blocks (skipStatement 0 rest)
    else if t.kind = .semicolon then readItems blocks ts
    else
      have :
          (readMirror stop (scopeOf blocks) (t :: ts)).next.length <
            ts.length + 1 :=
        readMirror_next_lt stop (scopeOf blocks) closes ts
      let definition := readMirror stop (scopeOf blocks) (t :: ts)
      definition.content ++ readItems blocks definition.next
termination_by tokens.length

end

/-- A file and what was reported about it. -/
structure Reading where
  file : File
  log : Log

/-- The tokens of a list before the end of the file. -/
def beforeEnd (tokens : List Token) : List Token :=
  tokens.takeWhile (·.kind != .eof)

/-- The token that ends a file: the first mark of its end, or one at the start
where there is none. -/
def endOf (path : Text) (tokens : List Token) : Token :=
  (tokens.find? (·.kind == .eof)).getD ⟨.eof, [], .start path⟩

/-- Reads a file from its tokens. -/
def readTokens (path : Text) (tokens : List Token) : Reading :=
  let content := readItems (endOf path tokens) [] (beforeEnd tokens)
  ⟨{ path, includes := content.includes, mirrors := content.mirrors },
    content.log⟩

/-- Reads a file from its text. -/
def readText (path text : Text) : Reading :=
  readTokens path (Token.scan path text)

/-- Reads files, each given by its path and text, in order. -/
def readFiles (files : List (Text × Text)) : Module × Log :=
  let readings := files.map fun (path, text) => readText path text
  (readings.map Reading.file, readings.flatMap Reading.log)

end Decl
end MirrorAdapter
